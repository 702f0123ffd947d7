/-
  Support tickets and the operations on them.

  A transaction works on one ticket: it locks the row, writes messages and events
  and changes the row.  What it would commit is a `Draft`.

  * `setStatus`, `appendMessage`: the only writers of the status and of the last
    message;
  * `createTicket`, …, `setTicketCategory`: the seven operations.  An operation that
    is refused has no draft;
  * `Move`: what an operation can do to a draft (`Operation.moves`);
  * `Consistent`: a ticket and its history, which every move keeps
    (`Consistent.moves`) and a new ticket has (`createTicket_consistent`).
-/
import Mathlib.Data.Nat.Basic
import Mathlib.Data.Fin.Basic
import Mathlib.Logic.Relation
import Mathlib.Order.Basic
import Mathlib.Order.Nat
import BrainstormServer.Python

namespace BrainstormServer

namespace Support

/-! ## Rows -/

/-- A naive `datetime`. -/
structure Timestamp where
  year : Fin 10000
  month : Fin 13
  day : Fin 32
  hour : Fin 24
  minute : Fin 60
  second : Fin 60
  microsecond : Fin 1000000
deriving DecidableEq

/-- The fields in one number, the year first. -/
def Timestamp.key (t : Timestamp) : ℕ :=
  (((((t.year.val * 13 + t.month) * 32 + t.day) * 24 + t.hour) * 60 + t.minute) * 60 + t.second) *
    1000000 + t.microsecond

theorem Timestamp.key_injective : Function.Injective Timestamp.key := by
  rintro ⟨y, mo, d, h, mi, s, u⟩ ⟨y', mo', d', h', mi', s', u'⟩ heq
  simp only [Timestamp.key] at heq
  simp only [Timestamp.mk.injEq, Fin.ext_iff]
  omega

instance : LinearOrder Timestamp := LinearOrder.lift' Timestamp.key Timestamp.key_injective

inductive SupportTicketStatus
  | «open»
  | answered
  | closed
deriving DecidableEq

inductive SupportAuthor
  | user
  | support
deriving DecidableEq

inductive SupportEventType
  | opened
  | closed
  | reopened
  | recategorized
deriving DecidableEq

abbrev Diagnostics := List (String × String)

structure SupportTicket where
  id : ℕ
  pubkey : String
  subject : String
  category : String
  status : SupportTicketStatus
  notifyEmail : Option String
  diagnostics : Option Diagnostics
  createdAt : Timestamp
  updatedAt : Timestamp
  lastMessageAt : Timestamp
  lastMessageAuthor : SupportAuthor
  closedAt : Option Timestamp
deriving DecidableEq

structure SupportMessage where
  id : ℕ
  ticketId : ℕ
  author : SupportAuthor
  body : String
  actorPubkey : Option String
  createdAt : Timestamp
deriving DecidableEq

structure SupportEvent where
  id : ℕ
  ticketId : ℕ
  type : SupportEventType
  actor : SupportAuthor
  actorPubkey : Option String
  at_ : Timestamp
deriving DecidableEq

/-- The committed rows. -/
structure Db where
  tickets : List SupportTicket
  messages : List SupportMessage
  events : List SupportEvent

/-! ## What the operations answer -/

structure HTTPException where
  statusCode : ℕ
  detail : String
deriving DecidableEq

structure SupportTicketItem where
  id : ℕ
  subject : String
  category : String
  status : SupportTicketStatus
  createdAt : Timestamp
  lastMessageAt : Timestamp
  lastMessageAuthor : SupportAuthor
  closedAt : Option Timestamp
deriving DecidableEq

structure AdminSupportTicketItem extends SupportTicketItem where
  pubkey : String
  notifyEmail : Option String

structure SupportMessageItem where
  id : ℕ
  author : SupportAuthor
  body : String
  createdAt : Timestamp

structure AdminSupportMessageItem extends SupportMessageItem where
  actorPubkey : Option String

/-- `SupportTicketItem.model_validate`. -/
def SupportTicket.item (t : SupportTicket) : SupportTicketItem :=
  ⟨t.id, t.subject, t.category, t.status, t.createdAt, t.lastMessageAt, t.lastMessageAuthor, t.closedAt⟩

def SupportTicket.adminItem (t : SupportTicket) : AdminSupportTicketItem :=
  { t.item with pubkey := t.pubkey, notifyEmail := t.notifyEmail }

def SupportMessage.item (m : SupportMessage) : SupportMessageItem := ⟨m.id, m.author, m.body, m.createdAt⟩

def SupportMessage.adminItem (m : SupportMessage) : AdminSupportMessageItem :=
  { m.item with actorPubkey := m.actorPubkey }

inductive SupportNotificationKind
  | ticketOpened
  | userReplied
  | supportReplied

inductive Audience
  | team
  | user
deriving DecidableEq

structure SupportNotification where
  kind : SupportNotificationKind
  audience : Audience
  ticketId : ℕ
  category : String
  recipientPubkey : Option String
  recipientEmail : Option String

/-! ## A transaction's own rows -/

/-- What the statements of a transaction read besides rows: `now()`, which is the
    start of the transaction, `utc_now()`, and the sequences. -/
structure Tx where
  now : Timestamp
  utcNow : Timestamp
  nextTicket : ℕ
  nextMessage : ℕ
  nextEvent : ℕ

/-- What a transaction has written: its ticket as it stands now, the rows it has
    inserted, and the notifications to send after the commit. -/
structure Draft where
  ticket : SupportTicket
  messages : List SupportMessage
  events : List SupportEvent
  notifications : List SupportNotification

/-- A ticket that was loaded. -/
def Draft.of (ticket : SupportTicket) : Draft := ⟨ticket, [], [], []⟩

section
variable (tx : Tx)

def insertSupportEvent (d : Draft) (type : SupportEventType) (actor : SupportAuthor)
    (actorPubkey : Option String) : Draft :=
  { d with events := d.events ++
      [⟨tx.nextEvent + d.events.length, d.ticket.id, type, actor, actorPubkey, tx.now⟩] }

/-- The row that `insert_support_message_on_db` returns. -/
def newMessage (d : Draft) (author : SupportAuthor) (body : String) (actorPubkey : Option String) :
    SupportMessage :=
  ⟨tx.nextMessage + d.messages.length, d.ticket.id, author, body, actorPubkey, tx.now⟩

/-- `_append_message`. -/
def appendMessage (d : Draft) (author : SupportAuthor) (body : String) (actorPubkey : Option String) :
    Draft :=
  let message := newMessage tx d author body actorPubkey
  { d with
    ticket := { d.ticket with lastMessageAt := message.createdAt, lastMessageAuthor := author }
    messages := d.messages ++ [message] }

/-- `_set_status`. -/
def setStatus (d : Draft) (status : SupportTicketStatus) (actor : SupportAuthor)
    (actorPubkey : Option String) : Draft :=
  if d.ticket.status = status then d
  else if status = .closed then
    insertSupportEvent tx
      { d with ticket := { d.ticket with closedAt := some tx.utcNow, status := status } }
      .closed actor actorPubkey
  else if d.ticket.status = .closed then
    insertSupportEvent tx { d with ticket := { d.ticket with closedAt := none, status := status } }
      .reopened actor actorPubkey
  else { d with ticket := { d.ticket with status := status } }

/-- `_notify_about`. -/
def notifyAbout (d : Draft) (kind : SupportNotificationKind) (audience : Audience) : Draft :=
  { d with notifications := d.notifications ++
      [⟨kind, audience, d.ticket.id, d.ticket.category,
        if audience = .user then some d.ticket.pubkey else none,
        if audience = .user then d.ticket.notifyEmail else none⟩] }

/-! ## The operations -/

variable (db : Db)

/-- `lock_support_ticket_on_db`: the row, held until the transaction ends. -/
def lockSupportTicket (ticketId : ℕ) : Option SupportTicket :=
  db.tickets.find? fun t => t.id = ticketId

def lockedTicket (ticketId : ℕ) : Except HTTPException SupportTicket :=
  match lockSupportTicket db ticketId with
  | none => .error ⟨404, "No such ticket."⟩
  | some ticket => .ok ticket

def lockedOwnTicket (ticketId : ℕ) (pubkey : String) : Except HTTPException SupportTicket := do
  let ticket ← lockedTicket db ticketId
  if ticket.pubkey ≠ pubkey then .error ⟨404, "No such ticket."⟩
  else .ok ticket

def countUnclosedSupportTickets (pubkey : String) : ℕ :=
  db.tickets.countP fun t => t.pubkey = pubkey ∧ t.status ≠ .closed

/-- `insert_support_ticket_on_db`. -/
def newTicket (pubkey subject category : String) (notifyEmail : Option String)
    (diagnostics : Option Diagnostics) : SupportTicket where
  id := tx.nextTicket
  pubkey := pubkey
  subject := subject
  category := category
  status := .«open»
  notifyEmail := notifyEmail
  diagnostics := diagnostics
  createdAt := tx.now
  updatedAt := tx.now
  lastMessageAt := tx.now
  lastMessageAuthor := .user
  closedAt := none

/-- `create_ticket` after the check of the entitlement, with the filing lock held;
    `limit` is `settings.support_max_open_tickets`. -/
def createTicket (limit : ℕ) (pubkey subject body category : String) (notifyEmail : Option String)
    (diagnostics : Option Diagnostics) : Except HTTPException (Draft × SupportTicketItem) :=
  if limit ≤ countUnclosedSupportTickets db pubkey then
    .error ⟨409, "You already have " ++ toString limit ++
      " open tickets. Resolve one before opening another."⟩
  else
    let d := Draft.of (newTicket tx pubkey subject category notifyEmail diagnostics)
    let d := appendMessage tx d .user body (some pubkey)
    let d := insertSupportEvent tx d .opened .user (some pubkey)
    let d := notifyAbout d .ticketOpened .team
    .ok (d, d.ticket.item)

/-- `add_user_message` after the check of the entitlement. -/
def addUserMessage (ticketId : ℕ) (pubkey body : String) :
    Except HTTPException (Draft × SupportMessageItem) := do
  let ticket ← lockedOwnTicket db ticketId pubkey
  let message := newMessage tx (.of ticket) .user body (some pubkey)
  let d := appendMessage tx (.of ticket) .user body (some pubkey)
  let d := setStatus tx d .«open» .user (some pubkey)
  .ok (notifyAbout d .userReplied .team, message.item)

def resolveTicket (ticketId : ℕ) (pubkey : String) :
    Except HTTPException (Draft × SupportTicketItem) := do
  let ticket ← lockedOwnTicket db ticketId pubkey
  let d := setStatus tx (.of ticket) .closed .user (some pubkey)
  .ok (d, d.ticket.item)

def addSupportMessage (ticketId : ℕ) (body actorPubkey : String) :
    Except HTTPException (Draft × AdminSupportMessageItem) := do
  let ticket ← lockedTicket db ticketId
  let message := newMessage tx (.of ticket) .support body (some actorPubkey)
  let d := appendMessage tx (.of ticket) .support body (some actorPubkey)
  let d := setStatus tx d .answered .support (some actorPubkey)
  .ok (notifyAbout d .supportReplied .user, message.adminItem)

def closeTicketAsSupport (ticketId : ℕ) (message : Option String) (actorPubkey : String) :
    Except HTTPException (Draft × AdminSupportTicketItem) := do
  let ticket ← lockedTicket db ticketId
  let d := match message with
    | none => Draft.of ticket
    | some message =>
      notifyAbout (appendMessage tx (.of ticket) .support message (some actorPubkey)) .supportReplied .user
  let d := setStatus tx d .closed .support (some actorPubkey)
  .ok (d, d.ticket.adminItem)

def reopenTicketAsSupport (ticketId : ℕ) (actorPubkey : String) :
    Except HTTPException (Draft × AdminSupportTicketItem) := do
  let ticket ← lockedTicket db ticketId
  let d := setStatus tx (.of ticket) .«open» .support (some actorPubkey)
  .ok (d, d.ticket.adminItem)

/-- The category of the ticket, with the event that says so. -/
def recategorize (d : Draft) (category : String) (actorPubkey : Option String) : Draft :=
  insertSupportEvent tx { d with ticket := { d.ticket with category := category } }
    .recategorized .support actorPubkey

def setTicketCategory (ticketId : ℕ) (category actorPubkey : String) :
    Except HTTPException (Draft × AdminSupportTicketItem) := do
  let ticket ← lockedTicket db ticketId
  let d := if ticket.category ≠ category then recategorize tx (.of ticket) category (some actorPubkey)
    else .of ticket
  .ok (d, d.ticket.adminItem)

end

/-- The operations with their arguments. -/
inductive Operation
  | createTicket (pubkey subject body category : String) (notifyEmail : Option String)
      (diagnostics : Option Diagnostics)
  | addUserMessage (ticketId : ℕ) (pubkey body : String)
  | resolveTicket (ticketId : ℕ) (pubkey : String)
  | addSupportMessage (ticketId : ℕ) (body actorPubkey : String)
  | closeTicketAsSupport (ticketId : ℕ) (message : Option String) (actorPubkey : String)
  | reopenTicketAsSupport (ticketId : ℕ) (actorPubkey : String)
  | setTicketCategory (ticketId : ℕ) (category actorPubkey : String)

/-- The ticket an operation locks; a new ticket is nobody else's. -/
def Operation.ticketId : Operation → Option ℕ
  | .createTicket _ _ _ _ _ _ => none
  | .addUserMessage ticketId _ _ => some ticketId
  | .resolveTicket ticketId _ => some ticketId
  | .addSupportMessage ticketId _ _ => some ticketId
  | .closeTicketAsSupport ticketId _ _ => some ticketId
  | .reopenTicketAsSupport ticketId _ => some ticketId
  | .setTicketCategory ticketId _ _ => some ticketId

/-- Whose entitlement to support an operation requires. -/
def Operation.requires : Operation → Option String
  | .createTicket pubkey _ _ _ _ _ => some pubkey
  | .addUserMessage _ pubkey _ => some pubkey
  | _ => none

/-- What an operation leaves to be committed. -/
def Operation.draft (tx : Tx) (db : Db) (limit : ℕ) : Operation → Except HTTPException Draft
  | .createTicket pubkey subject body category notifyEmail diagnostics =>
    Prod.fst <$> Support.createTicket tx db limit pubkey subject body category notifyEmail diagnostics
  | .addUserMessage ticketId pubkey body => Prod.fst <$> Support.addUserMessage tx db ticketId pubkey body
  | .resolveTicket ticketId pubkey => Prod.fst <$> Support.resolveTicket tx db ticketId pubkey
  | .addSupportMessage ticketId body actorPubkey =>
    Prod.fst <$> Support.addSupportMessage tx db ticketId body actorPubkey
  | .closeTicketAsSupport ticketId message actorPubkey =>
    Prod.fst <$> Support.closeTicketAsSupport tx db ticketId message actorPubkey
  | .reopenTicketAsSupport ticketId actorPubkey =>
    Prod.fst <$> Support.reopenTicketAsSupport tx db ticketId actorPubkey
  | .setTicketCategory ticketId category actorPubkey =>
    Prod.fst <$> Support.setTicketCategory tx db ticketId category actorPubkey

/-! ## Moves -/

/-- One write to a draft. -/
inductive Move (tx : Tx) : Draft → Draft → Prop
  | message (d : Draft) (author : SupportAuthor) (body : String) (actorPubkey : Option String) :
    Move tx d (appendMessage tx d author body actorPubkey)
  | status (d : Draft) (status : SupportTicketStatus) (actor : SupportAuthor)
    (actorPubkey : Option String) : Move tx d (setStatus tx d status actor actorPubkey)
  | category (d : Draft) (category : String) (actorPubkey : Option String) :
    Move tx d (recategorize tx d category actorPubkey)
  | notify (d : Draft) (kind : SupportNotificationKind) (audience : Audience) :
    Move tx d (notifyAbout d kind audience)

/-- Writes one after the other. -/
abbrev Moves (tx : Tx) : Draft → Draft → Prop := Relation.ReflTransGen (Move tx)

section
variable {tx : Tx} {db : Db}

theorem map_fst_ok {α β : Type} {x : Except HTTPException (α × β)} {a : α} (h : Prod.fst <$> x = .ok a) :
    ∃ b, x = .ok (a, b) := by
  cases x with
  | error e => cases h
  | ok r =>
    cases h
    exact ⟨r.2, rfl⟩

theorem lockedTicket_ok {ticketId : ℕ} {ticket : SupportTicket}
    (h : lockedTicket db ticketId = .ok ticket) : ticket ∈ db.tickets ∧ ticket.id = ticketId := by
  unfold lockedTicket at h
  split at h
  · cases h
  · rename_i found hfound
    cases h
    exact ⟨List.mem_of_find?_eq_some hfound, by simpa using List.find?_some hfound⟩

theorem lockedOwnTicket_ok {ticketId : ℕ} {pubkey : String} {ticket : SupportTicket}
    (h : lockedOwnTicket db ticketId pubkey = .ok ticket) :
    ticket ∈ db.tickets ∧ ticket.id = ticketId := by
  obtain ⟨ticket', hlock, h⟩ := bind_ok h
  split_ifs at h
  cases h
  exact lockedTicket_ok hlock

/-- **What an operation can do.**  It files a new ticket, below the cap, or it makes
    moves on the ticket it has locked. -/
theorem Operation.draft_cases {limit : ℕ} {op : Operation} {d : Draft}
    (h : op.draft tx db limit = .ok d) :
    (∃ pubkey subject body category notifyEmail diagnostics reply,
      op = .createTicket pubkey subject body category notifyEmail diagnostics ∧
      Support.createTicket tx db limit pubkey subject body category notifyEmail diagnostics =
        .ok (d, reply)) ∨
    ∃ ticket ∈ db.tickets, op.ticketId = some ticket.id ∧ Moves tx (.of ticket) d := by
  cases op with
  | createTicket pubkey subject body category notifyEmail diagnostics =>
    obtain ⟨reply, h⟩ := map_fst_ok h
    exact .inl ⟨_, _, _, _, _, _, reply, rfl, h⟩
  | addUserMessage ticketId pubkey body =>
    obtain ⟨reply, h⟩ := map_fst_ok h
    unfold Support.addUserMessage at h
    obtain ⟨ticket, hlock, hd⟩ := bind_ok h
    obtain ⟨hmem, rfl⟩ := lockedOwnTicket_ok hlock
    cases hd
    exact .inr ⟨ticket, hmem, rfl, ((Relation.ReflTransGen.single (.message _ _ _ _)).tail
      (.status _ _ _ _)).tail (.notify _ _ _)⟩
  | resolveTicket ticketId pubkey =>
    obtain ⟨reply, h⟩ := map_fst_ok h
    unfold Support.resolveTicket at h
    obtain ⟨ticket, hlock, hd⟩ := bind_ok h
    obtain ⟨hmem, rfl⟩ := lockedOwnTicket_ok hlock
    cases hd
    exact .inr ⟨ticket, hmem, rfl, .single (.status _ _ _ _)⟩
  | addSupportMessage ticketId body actorPubkey =>
    obtain ⟨reply, h⟩ := map_fst_ok h
    unfold Support.addSupportMessage at h
    obtain ⟨ticket, hlock, hd⟩ := bind_ok h
    obtain ⟨hmem, rfl⟩ := lockedTicket_ok hlock
    cases hd
    exact .inr ⟨ticket, hmem, rfl, ((Relation.ReflTransGen.single (.message _ _ _ _)).tail
      (.status _ _ _ _)).tail (.notify _ _ _)⟩
  | closeTicketAsSupport ticketId message actorPubkey =>
    obtain ⟨reply, h⟩ := map_fst_ok h
    unfold Support.closeTicketAsSupport at h
    obtain ⟨ticket, hlock, hd⟩ := bind_ok h
    obtain ⟨hmem, rfl⟩ := lockedTicket_ok hlock
    cases hd
    refine .inr ⟨ticket, hmem, rfl, .tail ?_ (.status _ _ _ _)⟩
    cases message with
    | none => exact .refl
    | some message => exact (Relation.ReflTransGen.single (.message _ _ _ _)).tail (.notify _ _ _)
  | reopenTicketAsSupport ticketId actorPubkey =>
    obtain ⟨reply, h⟩ := map_fst_ok h
    unfold Support.reopenTicketAsSupport at h
    obtain ⟨ticket, hlock, hd⟩ := bind_ok h
    obtain ⟨hmem, rfl⟩ := lockedTicket_ok hlock
    cases hd
    exact .inr ⟨ticket, hmem, rfl, .single (.status _ _ _ _)⟩
  | setTicketCategory ticketId category actorPubkey =>
    obtain ⟨reply, h⟩ := map_fst_ok h
    unfold Support.setTicketCategory at h
    obtain ⟨ticket, hlock, hd⟩ := bind_ok h
    obtain ⟨hmem, rfl⟩ := lockedTicket_ok hlock
    cases hd
    refine .inr ⟨ticket, hmem, rfl, ?_⟩
    split_ifs
    · exact .single (.category _ _ _)
    · exact .refl

end

/-! ## What moves keep -/

/-- The rows a draft inserts belong to its ticket and are numbered from the
    sequences. -/
structure Draft.Numbered (tx : Tx) (d : Draft) : Prop where
  messages : d.messages.map SupportMessage.id = List.range' tx.nextMessage d.messages.length
  messageOf : ∀ m ∈ d.messages, m.ticketId = d.ticket.id
  events : d.events.map SupportEvent.id = List.range' tx.nextEvent d.events.length
  eventOf : ∀ e ∈ d.events, e.ticketId = d.ticket.id

/-- What no operation changes of a ticket. -/
structure SameTicket (t t' : SupportTicket) : Prop where
  id : t'.id = t.id
  pubkey : t'.pubkey = t.pubkey
  createdAt : t'.createdAt = t.createdAt
  updatedAt : t'.updatedAt = t.updatedAt

section
variable {tx : Tx} {d d' : Draft}

theorem range'_snoc (a n : ℕ) : List.range' a (n + 1) = List.range' a n ++ [a + n] := by
  rw [List.range'_concat, Nat.one_mul]

theorem numbered_of (tx : Tx) (ticket : SupportTicket) : (Draft.of ticket).Numbered tx where
  messages := rfl
  messageOf m hm := by cases hm
  events := rfl
  eventOf e he := by cases he

theorem Draft.Numbered.event (h : d.Numbered tx) (type : SupportEventType) (actor : SupportAuthor)
    (actorPubkey : Option String) : (insertSupportEvent tx d type actor actorPubkey).Numbered tx where
  messages := h.messages
  messageOf := h.messageOf
  events := by
    simp only [insertSupportEvent, List.map_append, List.map_cons, List.map_nil, List.length_append,
      List.length_singleton, h.events, range'_snoc]
  eventOf e he := by
    rcases List.mem_append.1 he with he | he
    · exact h.eventOf e he
    · rw [List.mem_singleton.1 he]
      rfl

/-- The ticket of a draft may change where its id stays. -/
theorem Draft.Numbered.retouch (h : d.Numbered tx) {ticket : SupportTicket} (hid : ticket.id = d.ticket.id) :
    ({ d with ticket := ticket } : Draft).Numbered tx where
  messages := h.messages
  messageOf m hm := (h.messageOf m hm).trans hid.symm
  events := h.events
  eventOf e he := (h.eventOf e he).trans hid.symm

theorem Move.numbered (hm : Move tx d d') (h : d.Numbered tx) : d'.Numbered tx := by
  cases hm with
  | message author body actorPubkey =>
    refine ⟨?_, ?_, h.events, h.eventOf⟩
    · simp only [appendMessage, newMessage, List.map_append, List.map_cons, List.map_nil,
        List.length_append, List.length_singleton, h.messages, range'_snoc]
    · intro m hm
      rcases List.mem_append.1 hm with hm | hm
      · exact h.messageOf m hm
      · rw [List.mem_singleton.1 hm]
        rfl
  | status status actor actorPubkey =>
    unfold setStatus
    split_ifs
    · exact h
    · apply Draft.Numbered.event
      exact h.retouch rfl
    · apply Draft.Numbered.event
      exact h.retouch rfl
    · exact h.retouch rfl
  | category category actorPubkey =>
    apply Draft.Numbered.event
    exact h.retouch rfl
  | notify kind audience => exact ⟨h.messages, h.messageOf, h.events, h.eventOf⟩

theorem SameTicket.refl (t : SupportTicket) : SameTicket t t := ⟨rfl, rfl, rfl, rfl⟩

theorem SameTicket.trans {t t' t'' : SupportTicket} (h : SameTicket t t') (h' : SameTicket t' t'') :
    SameTicket t t'' :=
  ⟨h'.id.trans h.id, h'.pubkey.trans h.pubkey, h'.createdAt.trans h.createdAt,
    h'.updatedAt.trans h.updatedAt⟩

theorem Move.sameTicket (hm : Move tx d d') : SameTicket d.ticket d'.ticket := by
  cases hm with
  | message author body actorPubkey => exact ⟨rfl, rfl, rfl, rfl⟩
  | status status actor actorPubkey =>
    unfold setStatus
    split_ifs
    · exact .refl _
    · exact ⟨rfl, rfl, rfl, rfl⟩
    · exact ⟨rfl, rfl, rfl, rfl⟩
    · exact ⟨rfl, rfl, rfl, rfl⟩
  | category category actorPubkey => exact ⟨rfl, rfl, rfl, rfl⟩
  | notify kind audience => exact .refl _

theorem Moves.numbered (hm : Moves tx d d') (h : d.Numbered tx) : d'.Numbered tx := by
  induction hm with
  | refl => exact h
  | tail _ hstep ih => exact hstep.numbered ih

theorem Moves.sameTicket (hm : Moves tx d d') : SameTicket d.ticket d'.ticket := by
  induction hm with
  | refl => exact .refl _
  | tail _ hstep ih => exact ih.trans hstep.sameTicket

end

/-! ## A ticket and its history -/

/-- `CLOSED` and `REOPENED` in turn, `n` of them. -/
def turns : ℕ → List SupportEventType
  | 0 => []
  | n + 1 => turns n ++ [if n % 2 = 0 then .closed else .reopened]

/-- The lifecycle events among the events of a ticket. -/
def lifecycle (events : List SupportEvent) : List SupportEventType :=
  (events.map SupportEvent.type).filter fun type => type ≠ .recategorized

/-- The state of a ticket agrees with its messages and events. -/
structure Consistent (ticket : SupportTicket) (messages : List SupportMessage)
    (events : List SupportEvent) : Prop where
  closed : ticket.closedAt.isSome ↔ ticket.status = .closed
  alternate : ∃ n, lifecycle events = .opened :: turns n
  last : (lifecycle events).getLast? = some .closed ↔ ticket.status = .closed
  lastMessage : ∃ m, messages.getLast? = some m ∧ ticket.lastMessageAuthor = m.author ∧
    ticket.lastMessageAt = m.createdAt

section
variable {tx : Tx} {d d' : Draft} {messages : List SupportMessage} {events : List SupportEvent}

theorem lifecycle_snoc (events : List SupportEvent) (e : SupportEvent) :
    lifecycle (events ++ [e]) =
      lifecycle events ++ if e.type = .recategorized then [] else [e.type] := by
  unfold lifecycle
  rw [List.map_append, List.filter_append]
  by_cases h : e.type = .recategorized
  · simp [h]
  · simp [h]

/-- The last of the turns says how many there are, modulo 2. -/
theorem getLast_turns (n : ℕ) :
    (SupportEventType.opened :: turns n).getLast? = some .closed ↔ n % 2 = 1 := by
  cases n with
  | zero => simp [turns]
  | succ n =>
    rw [turns, ← List.cons_append, List.getLast?_concat]
    by_cases h : n % 2 = 0
    · simp only [h, if_true, true_iff]
      omega
    · simp only [h, if_false, Option.some.injEq, reduceCtorEq, false_iff]
      omega

/-- What a draft and the rows before it make of a ticket. -/
def Draft.Over (d : Draft) (messages : List SupportMessage) (events : List SupportEvent) : Prop :=
  Consistent d.ticket (messages ++ d.messages) (events ++ d.events)

/-- The next turn: a ticket that is closed, or was. -/
theorem Consistent.turn {ticket ticket' : SupportTicket} {e : SupportEvent}
    (h : Consistent ticket messages events) (hclosed : ticket'.closedAt.isSome ↔ ticket'.status = .closed)
    (hmoved : ticket.status = .closed ↔ ticket'.status ≠ .closed)
    (hevent : e.type = if ticket'.status = .closed then .closed else .reopened)
    (hlast : ticket'.lastMessageAuthor = ticket.lastMessageAuthor ∧
      ticket'.lastMessageAt = ticket.lastMessageAt) : Consistent ticket' messages (events ++ [e]) := by
  obtain ⟨n, hn⟩ := h.alternate
  have hlastn := h.last
  rw [hn, getLast_turns] at hlastn
  have hne : e.type ≠ .recategorized := by
    rw [hevent]
    split_ifs <;> simp
  have hturn : lifecycle (events ++ [e]) = .opened :: turns (n + 1) := by
    rw [lifecycle_snoc, if_neg hne, hn, turns, List.cons_append, hevent]
    by_cases hs : ticket'.status = .closed
    · have hmod : n % 2 = 0 := by
        have hopen : ¬ n % 2 = 1 := fun hodd => hmoved.1 (hlastn.1 hodd) hs
        omega
      rw [if_pos hs, if_pos hmod]
    · have hmod : n % 2 = 1 := hlastn.2 (hmoved.2 hs)
      rw [if_neg hs, if_neg (by omega)]
  obtain ⟨m, hm, hauthor, hat⟩ := h.lastMessage
  refine ⟨hclosed, ⟨n + 1, hturn⟩, ?_, m, hm, hlast.1.trans hauthor, hlast.2.trans hat⟩
  rw [hturn, getLast_turns]
  constructor
  · intro hodd
    by_contra hs
    have := hlastn.2 (hmoved.2 hs)
    omega
  · intro hs
    have hopen : ¬ n % 2 = 1 := fun hodd => hmoved.1 (hlastn.1 hodd) hs
    omega

theorem Move.over (hm : Move tx d d') (h : d.Over messages events) : d'.Over messages events := by
  unfold Draft.Over at h ⊢
  cases hm with
  | message author body actorPubkey =>
    refine ⟨h.closed, h.alternate, h.last, newMessage tx d author body actorPubkey, ?_, rfl, rfl⟩
    simp only [appendMessage, ← List.append_assoc, List.getLast?_concat]
  | status status actor actorPubkey =>
    unfold setStatus
    split_ifs with hsame hclose hwas
    · exact h
    · -- closing
      subst hclose
      simp only [insertSupportEvent, ← List.append_assoc]
      exact h.turn (by simp) (by simp [hsame]) (by simp) ⟨rfl, rfl⟩
    · -- reopening
      simp only [insertSupportEvent, ← List.append_assoc]
      exact h.turn (by simp [hclose]) (by simp [hwas, hclose]) (by simp [hclose]) ⟨rfl, rfl⟩
    · -- a shuffle between live states
      refine ⟨?_, h.alternate, ?_, h.lastMessage⟩
      · rw [h.closed]
        simp [hwas, hclose]
      · rw [h.last]
        simp [hwas, hclose]
  | category category actorPubkey =>
    have hlife : lifecycle (events ++ (d.events ++ [⟨tx.nextEvent + d.events.length, d.ticket.id,
        .recategorized, .support, actorPubkey, tx.now⟩])) = lifecycle (events ++ d.events) := by
      rw [← List.append_assoc, lifecycle_snoc, if_pos rfl, List.append_nil]
    refine ⟨h.closed, ?_, ?_, h.lastMessage⟩
    · simp only [recategorize, insertSupportEvent, hlife]
      exact h.alternate
    · simp only [recategorize, insertSupportEvent, hlife]
      exact h.last
  | notify kind audience => exact h

/-- Every operation on a ticket keeps it consistent. -/
theorem Moves.over (hm : Moves tx d d') (h : d.Over messages events) : d'.Over messages events := by
  induction hm with
  | refl => exact h
  | tail _ hstep ih => exact hstep.over ih

/-- A filing: below the cap, a new row with its first message and `OPENED`. -/
theorem createTicket_ok {db : Db} {limit : ℕ} {pubkey subject body category : String}
    {notifyEmail : Option String} {diagnostics : Option Diagnostics} {reply : SupportTicketItem}
    (h : createTicket tx db limit pubkey subject body category notifyEmail diagnostics = .ok (d, reply)) :
    countUnclosedSupportTickets db pubkey < limit ∧
      d.ticket = newTicket tx pubkey subject category notifyEmail diagnostics ∧ d.Numbered tx ∧
      d.Over [] [] := by
  unfold createTicket at h
  split_ifs at h with hcap
  cases h
  refine ⟨Nat.lt_of_not_le hcap, rfl, ⟨rfl, ?_, rfl, ?_⟩, ?_⟩
  · simp [notifyAbout, insertSupportEvent, appendMessage, Draft.of, newMessage]
  · simp [notifyAbout, insertSupportEvent, appendMessage, Draft.of]
  · exact ⟨by simp [notifyAbout, insertSupportEvent, appendMessage, Draft.of, newTicket], ⟨0, rfl⟩,
      by simp [notifyAbout, insertSupportEvent, appendMessage, Draft.of, newTicket, lifecycle], _, rfl, rfl, rfl⟩

end

end Support

end BrainstormServer
