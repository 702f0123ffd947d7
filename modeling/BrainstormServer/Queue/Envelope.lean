/-
  `handle_one` on whatever text is found on a result queue.

  `Queue.System` takes a text to be an envelope or not, and a consumer's commands one
  at a time.  Here `handle_one` is followed from the text itself: what it decodes
  to, the keys that are built of it, the guarded block and its error path, and the
  commands after them.  What Redis answers and what the two callables do is left open.

  * `handleOne`: the program of one message;
  * `handleOne_clears_iff`: it takes the message from `:processing` and returns, in
    every world, if and only if the text is `Usable`;
  * `unreadable_stays`: a text that raises before the guarded block stays at the head
    of the queue, however often the consumer starts and whatever is pushed behind it;
  * `consume_drains`: usable texts are all taken.
-/
import BrainstormServer.Python
import BrainstormServer.Conc.Machine
import BrainstormServer.Conc.Prog

namespace BrainstormServer

namespace Envelope

open Conc

/-! ## Commands -/

/-- The exceptions that can be raised in `handle_one`. -/
inductive Exn
  | jsonDecodeError (text : String)
  | attributeError (type : String)
  | keyError (key : String)
  | typeError (text : String)
  /-- a key that the Redis client cannot encode -/
  | dataError (text : String)
  /-- raised by a callable, with the message as it left it -/
  | raised (text : String) (message : PyDict)

/-- `str(e)`. -/
def Exn.str : Exn → String
  | .jsonDecodeError text => text
  | .attributeError type => "'" ++ type ++ "' object has no attribute 'get'"
  | .keyError key => "'" ++ key ++ "'"
  | .typeError text => text
  | .dataError text => text
  | .raised text _ => text

/-- The message in the error path: a callable is given the dict, and may change it. -/
def Exn.message (e : Exn) (message : PyDict) : PyDict :=
  match e with
  | .raised _ left => left
  | _ => message

/-- What is called outside the server, for texts in `ρ`. -/
structure Lib (ρ : Type) where
  /-- `orjson.loads` of a text of the queue -/
  loads : ρ → Except String PyValue
  /-- `orjson.loads` of a payload -/
  loadsBlob : Bytes → Except String PyValue
  /-- the `DataError` of a key that the Redis client cannot encode, if it cannot -/
  refuses : PyValue → Option String
  /-- `f"{v}"` -/
  format : PyValue → String

/-- What `handle_one` awaits: Redis commands, and the two callables. -/
inductive Cmd (ρ : Type)
  | incr (key : String)
  | expire (key : String) (seconds : ℕ)
  | strlen (key : PyValue)
  | getrange (key : PyValue) (start stop : ℕ)
  | handler (message : PyDict)
  | onLost (message : PyDict) (reason : String)
  | lrem (list : String) (count : ℕ) (raw : ρ)
  | delete (names : List PyValue)
  | srem (key member : String)
  | scard (key : String)

/-- How a callable ends: the message as it leaves it, and the text of what it raised. -/
structure Outcome where
  message : PyDict
  raised : Option String

variable {ρ : Type}

@[reducible]
def Cmd.Ans : Cmd ρ → Type
  | .incr _ => ℕ
  | .strlen _ => ℕ
  | .getrange _ _ _ => Bytes
  | .handler _ => Outcome
  | .onLost _ _ => Outcome
  | .scard _ => ℕ
  | .expire _ _ => Unit
  | .lrem _ _ _ => Unit
  | .delete _ => Unit
  | .srem _ _ => Unit

/-- A program over these commands. -/
abbrev Task (ρ α : Type) := Prog (Cmd.Ans : Cmd ρ → Type) Exn α

/-! ## `handle_one` -/

/-- `MAX_ATTEMPTS`. -/
def maxAttempts : ℕ := 3

/-- `ATTEMPTS_TTL_SECONDS`. -/
def attemptsTtlSeconds : ℕ := 7 * 24 * 60 * 60

/-- `READ_CHUNK_BYTES`. -/
def readChunkBytes : ℕ := 8 * 1024 * 1024

/-- `processing_list`. -/
def processingList (queue : String) : String := queue ++ ":processing"

/-- `type(v).__name__`. -/
def typeName : PyValue → String
  | .none => "NoneType"
  | .bool _ => "bool"
  | .int _ => "int"
  | .float _ => "float"
  | .str _ => "str"
  | .list _ => "list"
  | .dict _ => "dict"

/-- `v[key]`. -/
def getItem (v : PyValue) (key : String) : Except Exn PyValue :=
  match v with
  | .dict entries =>
    match entries.lookup key with
    | some value => .ok value
    | none => .error (.keyError key)
  | .list _ => .error (.typeError "list indices must be integers or slices, not str")
  | .str _ => .error (.typeError "string indices must be integers, not 'str'")
  | v => .error (.typeError ("'" ++ typeName v ++ "' object is not subscriptable"))

/-- A step that may raise, as a program. -/
def lift {α : Type} : Except Exn α → Task ρ α
  | .ok a => .ret a
  | .error e => .raise e

/-- A Redis command, or a call. -/
def send (c : Cmd ρ) : Task ρ (Cmd.Ans c) := .op c .ret

/-- What awaiting a callable leads to. -/
def Outcome.task (o : Outcome) : Task ρ Unit :=
  match o.raised with
  | none => .ret ()
  | some text => .raise (.raised text o.message)

/-- `await handler(message)`. -/
def awaitHandler (message : PyDict) : Task ρ Unit := .op (.handler message) Outcome.task

/-- `await on_lost(message, reason)`. -/
def awaitOnLost (message : PyDict) (reason : String) : Task ρ Unit :=
  .op (.onLost message reason) Outcome.task

section
variable (lib : Lib ρ)

/-- `_attempts_key`. -/
def attemptsKey (queue : String) (message : PyDict) : Except Exn String :=
  let resultKey := dictGet message "result_key"
  if resultKey.truthy then .ok (queue ++ ":attempts:" ++ lib.format resultKey)
  else do
    let privateId ← getItem (.dict message) "private_id"
    return queue ++ ":attempts:" ++ lib.format privateId

/-- The client encodes a key before it sends the command. -/
def encode (key : PyValue) : Task ρ Unit :=
  match lib.refuses key with
  | none => .ret ()
  | some text => .raise (.dataError text)

/-- The loop of `read_payload`; a chunk that is not empty makes the rest shorter. -/
def readChunks (key : PyValue) (size : ℕ) (buf : Bytes) : Task ρ (Option Bytes) :=
  if buf.length < size then
    .op (.getrange key buf.length (buf.length + readChunkBytes - 1)) fun chunk =>
      if chunk = [] then .ret none
      else readChunks key size (buf ++ chunk)
  else .ret (some buf)
termination_by size - buf.length
decreasing_by
  have hpos : 0 < chunk.length := List.length_pos_iff.2 ‹_›
  rw [List.length_append]
  omega

/-- `read_payload`. -/
def readPayload (key : PyValue) : Task ρ (Option Bytes) := do
  encode lib key
  let size ← send (.strlen key)
  if size = 0 then return none
  else readChunks key size []

/-- The block that `handle_one` guards; the texts of its log are built there too. -/
def guarded (attemptsKey : String) (message : PyDict) : Task ρ Unit := do
  let key := dictGet message "result_key"
  let attempts ← send (.incr attemptsKey)
  send (.expire attemptsKey attemptsTtlSeconds)
  if maxAttempts < attempts then
    let reason := "gave up after " ++ toString maxAttempts ++ " interrupted attempts"
    let _ ← lift (getItem (.dict message) "private_id")
    awaitOnLost message reason
  else if key.isNone then
    awaitHandler message
  else
    let blob? ← readPayload lib key
    match blob? with
    | none =>
      let reason := "result payload " ++ lib.format key ++ " missing (evicted or expired)"
      let _ ← lift (getItem (.dict message) "private_id")
      awaitOnLost message reason
    | some blob =>
      let payload ← lift ((lib.loadsBlob blob).mapError .jsonDecodeError)
      let result ← lift (getItem payload "result")
      awaitHandler (dictSet message "result" result)

/-- The commands after the guarded block. -/
def acknowledge (queue : String) (raw : ρ) (attemptsKey : String) (key : PyValue) : Task ρ Unit := do
  send (.lrem (processingList queue) 1 raw)
  send (.delete [.str attemptsKey])
  if key.isNone then return ()
  else
    let pending := lib.format key ++ ":pending"
    send (.srem pending queue)
    let left ← send (.scard pending)
    if left = 0 then
      encode lib key
      send (.delete [key, .str pending])
    else return ()

/-- `handle_one`. -/
def handleOne (queue : String) (raw : ρ) : Task ρ Unit := do
  let value ← lift ((lib.loads raw).mapError .jsonDecodeError)
  match value.dict? with
  | none => .raise (.attributeError (typeName value))
  | some message =>
    let key := dictGet message "result_key"
    let attemptsKey ← lift (attemptsKey lib queue message)
    (guarded lib attemptsKey message).tryCatch fun e => do
      -- what `on_lost` raises here is logged
      let _ ← send (.onLost (e.message message) ("handler failed: " ++ e.str))
      return ()
    acknowledge lib queue raw attemptsKey key

end

/-! ## What a text has to be -/

/-- The text names the run it is about. -/
def Keyed (message : PyDict) : Prop :=
  (dictGet message "result_key").truthy = true ∨ (message.lookup "private_id").isSome = true

/-- The client can send the key of the payload, if there is one. -/
def Sendable (lib : Lib ρ) (key : PyValue) : Prop := key.isNone = true ∨ lib.refuses key = none

/-- A JSON object with a `result_key` or a `private_id`, whose `result_key` the client can
    send. -/
def Usable (lib : Lib ρ) (raw : ρ) : Prop :=
  ∃ message, lib.loads raw = .ok (.dict message) ∧ Keyed message ∧
    Sendable lib (dictGet message "result_key")

/-- What comes before the guarded block raises. -/
def Unreadable (lib : Lib ρ) (raw : ρ) : Prop :=
  ∀ message, lib.loads raw = .ok (.dict message) → ¬ Keyed message

theorem attemptsKey_ok (lib : Lib ρ) (queue : String) {message : PyDict} (h : Keyed message) :
    ∃ attempts, attemptsKey lib queue message = .ok attempts := by
  unfold attemptsKey
  by_cases ht : (dictGet message "result_key").truthy = true
  · exact ⟨_, if_pos ht⟩
  · obtain ⟨privateId, hp⟩ := Option.isSome_iff_exists.1 (h.resolve_left ht)
    exact ⟨queue ++ ":attempts:" ++ lib.format privateId, by simp [ht, getItem, hp]⟩

theorem attemptsKey_error (lib : Lib ρ) (queue : String) {message : PyDict} (h : ¬ Keyed message) :
    attemptsKey lib queue message = .error (.keyError "private_id") := by
  have ht : ¬ (dictGet message "result_key").truthy = true := fun ht => h (Or.inl ht)
  have hp : message.lookup "private_id" = none :=
    Option.not_isSome_iff_eq_none.1 fun hp => h (Or.inr hp)
  unfold attemptsKey
  simp only [ht, getItem, hp]
  rfl

/-- `handle_one` of a JSON object. -/
theorem handleOne_dict {lib : Lib ρ} (queue : String) {raw : ρ} {message : PyDict}
    (hraw : lib.loads raw = .ok (.dict message)) :
    handleOne lib queue raw = (lift (attemptsKey lib queue message)).bind fun attempts =>
      (((guarded lib attempts message).tryCatch fun e => do
        let _ ← send (.onLost (e.message message) ("handler failed: " ++ e.str))
        return ()).bind fun _ =>
          acknowledge lib queue raw attempts (dictGet message "result_key")) := by
  unfold handleOne
  rw [hraw]
  rfl

theorem handleOne_unreadable {lib : Lib ρ} (queue : String) {raw : ρ} (h : Unreadable lib raw) :
    ∃ e, handleOne lib queue raw = .raise e := by
  cases hraw : lib.loads raw with
  | error text =>
    refine ⟨.jsonDecodeError text, ?_⟩
    unfold handleOne
    rw [hraw]
    rfl
  | ok value =>
    cases hd : value.dict? with
    | none =>
      refine ⟨.attributeError (typeName value), ?_⟩
      simp [handleOne, hraw, hd, lift, Except.mapError]
    | some message =>
      cases value with
      | dict entries =>
        refine ⟨.keyError "private_id", ?_⟩
        rw [handleOne_dict queue hraw, attemptsKey_error lib queue (h entries hraw)]
        rfl
      | _ => cases hd

/-! ## The lists of the queue -/

/-- The two lists of the queue; nobody else touches `:processing`. -/
structure Lists (ρ : Type) where
  queue : List ρ
  processing : List ρ

/-- What the rest of Redis answers, and what the callables do. -/
abbrev World (ρ : Type) := (c : Cmd ρ) → c.Ans

/-- One command. -/
def exec [DecidableEq ρ] (_ : Unit) (c : Cmd ρ) (lists : Lists ρ) (ω : World ρ) :
    Option (c.Ans × Lists ρ) :=
  match c with
  | .lrem _ _ raw => some ((), { lists with processing := lists.processing.erase raw })
  | c => some (ω c, lists)

/-- Commands that leave the lists. -/
def Cmd.Harmless : Cmd ρ → Prop
  | .lrem _ _ _ => False
  | _ => True

section
variable {lib : Lib ρ} {queue attemptsKey : String} {key : PyValue} {message : PyDict}

theorem uses_lift {α : Type} {P : Cmd ρ → Prop} : ∀ r : Except Exn α, (lift r : Task ρ α).Uses P
  | .ok _ => trivial
  | .error _ => trivial

theorem uses_task {P : Cmd ρ → Prop} (o : Outcome) : (o.task : Task ρ Unit).Uses P := by
  unfold Outcome.task
  split <;> trivial

theorem uses_encode {P : Cmd ρ → Prop} : (encode lib key).Uses P := by
  unfold encode
  split <;> trivial

theorem uses_readChunks (size : ℕ) (buf : Bytes) :
    (readChunks key size buf : Task ρ (Option Bytes)).Uses Cmd.Harmless := by
  fun_induction readChunks key size buf with
  | case1 buf hlt ih =>
    refine ⟨trivial, fun chunk => ?_⟩
    dsimp only
    by_cases hc : chunk = []
    · rw [if_pos hc]
      trivial
    · rw [if_neg hc]
      exact ih chunk hc
  | case2 buf hle => trivial

theorem uses_readPayload : (readPayload lib key).Uses Cmd.Harmless := by
  refine Prog.Uses.bind uses_encode fun _ => ⟨trivial, fun size => ?_⟩
  show (if size = 0 then _ else _ : Task ρ (Option Bytes)).Uses _
  split_ifs
  · trivial
  · exact uses_readChunks size []

/-- The guarded block leaves the message where it is. -/
theorem uses_guarded : (guarded lib attemptsKey message).Uses Cmd.Harmless := by
  have hlost : ∀ reason, (awaitOnLost message reason : Task ρ Unit).Uses Cmd.Harmless :=
    fun reason => ⟨trivial, uses_task⟩
  have hhandler : ∀ message, (awaitHandler message : Task ρ Unit).Uses Cmd.Harmless :=
    fun message => ⟨trivial, uses_task⟩
  refine ⟨trivial, fun attempts => ⟨trivial, fun _ => ?_⟩⟩
  dsimp only [Prog.pure_eq]
  split_ifs
  · exact (uses_lift _).bind fun _ => hlost _
  · exact hhandler _
  · refine uses_readPayload.bind fun blob => ?_
    cases blob with
    | none => exact (uses_lift _).bind fun _ => hlost _
    | some blob => exact (uses_lift _).bind fun _ => (uses_lift _).bind fun _ => hhandler _

end

section
variable [DecidableEq ρ] {W : World ρ → Prop}

theorem exec_harmless {c : Cmd ρ} (hc : c.Harmless) (lists : Lists ρ) (ω : World ρ) :
    exec () c lists ω = some (ω c, lists) := by
  cases c with
  | lrem list count raw => exact absurd hc id
  | _ => rfl

theorem wp_harmless {α : Type} {p : Task ρ α} {lists : Lists ρ} (hp : p.Uses Cmd.Harmless) :
    p.wp exec () W (fun _ st => st = lists) lists := by
  induction p with
  | ret a => rfl
  | raise e => rfl
  | op c k ih =>
    intro ω _
    exact ⟨_, exec_harmless hp.1 lists ω, ih _ (hp.2 _)⟩

variable {lib : Lib ρ} {queue : String} {raw : ρ} {lists : Lists ρ}

/-- The lists without the message. -/
def Lists.without (lists : Lists ρ) (raw : ρ) : Lists ρ :=
  { lists with processing := lists.processing.erase raw }

/-- The error path ends the guarded block either way. -/
theorem guarded_wp {attemptsKey : String} {message : PyDict} {Q : Except Exn Unit → Lists ρ → Prop}
    (hQ : Q (.ok ()) lists) :
    ((guarded lib attemptsKey message).tryCatch fun e => do
      let _ ← send (.onLost (e.message message) ("handler failed: " ++ e.str))
      return ()).wp exec () W Q lists := by
  refine (Prog.wp_tryCatch _ _ _).2 (Prog.wp_mono _ _ _ ?_ (wp_harmless uses_guarded))
  rintro (e | a) st rfl
  · exact fun ω _ => ⟨_, rfl, hQ⟩
  · exact hQ

/-- The commands after the guarded block, when the key can be sent. -/
theorem acknowledge_wp {attemptsKey : String} {key : PyValue}
    (hkey : key.isNone = true ∨ lib.refuses key = none) :
    (acknowledge lib queue raw attemptsKey key).wp exec () W
      (fun r st => r = .ok () ∧ st = lists.without raw) lists := by
  refine fun ω _ => ⟨_, rfl, fun ω _ => ⟨_, rfl, ?_⟩⟩
  by_cases hnone : key.isNone = true
  · rw [if_pos hnone]
    exact ⟨rfl, rfl⟩
  · rw [if_neg hnone]
    refine fun ω _ => ⟨_, rfl, fun ω _ => ⟨_, rfl, ?_⟩⟩
    have hsent : encode lib key = .ret () := by
      unfold encode
      rw [hkey.resolve_left hnone]
    dsimp only [Prog.ret_bind]
    split_ifs
    · rw [hsent]
      exact fun ω _ => ⟨_, rfl, rfl, rfl⟩
    · exact ⟨rfl, rfl⟩

/-- The same when it cannot be sent, and no other queue is waited for. -/
theorem acknowledge_refused {attemptsKey text : String} {key : PyValue} (hnone : key.isNone = false)
    (hkey : lib.refuses key = some text) :
    (acknowledge lib queue raw attemptsKey key).wp exec () (fun ω => ∀ pending, ω (.scard pending) = 0)
      (fun r st => r = .error (.dataError text) ∧ st = lists.without raw) lists := by
  refine fun ω _ => ⟨_, rfl, fun ω _ => ⟨_, rfl, ?_⟩⟩
  rw [if_neg (by rw [hnone]; decide)]
  refine fun ω _ => ⟨_, rfl, fun ω hω => ⟨_, rfl, ?_⟩⟩
  have hsent : encode lib key = .raise (.dataError text) := by
    unfold encode
    rw [hkey]
  dsimp only [Prog.ret_bind]
  rw [if_pos (hω _), hsent]
  exact ⟨rfl, rfl⟩

/-- `handle_one` from the decoded envelope on. -/
theorem handleOne_keyed {message : PyDict} {Q : Except Exn Unit → Lists ρ → Prop}
    (hraw : lib.loads raw = .ok (.dict message)) (hkeyed : Keyed message)
    (hack : ∀ attempts : String, (acknowledge lib queue raw attempts
      (dictGet message "result_key")).wp exec () W Q lists) :
    (handleOne lib queue raw).wp exec () W Q lists := by
  obtain ⟨attempts, hattempts⟩ := attemptsKey_ok lib queue hkeyed
  rw [handleOne_dict queue hraw, hattempts, lift, Prog.ret_bind]
  refine (Prog.wp_bind _ _ _).2 (guarded_wp ?_)
  exact hack attempts

/-- `handle_one` returns and takes the message from `:processing`, whatever Redis answers
    and the callables do. -/
def Clears (lib : Lib ρ) (queue : String) (raw : ρ) : Prop :=
  ∀ (ω : ℕ → World ρ) (lists : Lists ρ),
    (handleOne lib queue raw).alone exec () ω lists = some (.ok (), lists.without raw)

theorem clears_of_usable (h : Usable lib raw) : Clears lib queue raw := by
  intro ω lists
  obtain ⟨message, hraw, hkeyed, hsend⟩ := h
  have hwp : (handleOne lib queue raw).wp exec () (fun _ => True)
      (fun r st => r = .ok () ∧ st = lists.without raw) lists :=
    handleOne_keyed hraw hkeyed fun _ => acknowledge_wp hsend
  obtain ⟨r, st, hrun, rfl, rfl⟩ := Prog.wp_alone exec () _ ω (fun _ => trivial) hwp
  exact hrun

/-- A world in which every stage is over at once, and nobody else is waited for. -/
def quietWorld : World ρ
  | .incr _ => (1 : ℕ)
  | .strlen _ => (0 : ℕ)
  | .getrange _ _ _ => ([] : Bytes)
  | .handler message => ⟨message, none⟩
  | .onLost message _ => ⟨message, none⟩
  | .scard _ => (0 : ℕ)
  | .expire _ _ => ()
  | .lrem _ _ _ => ()
  | .delete _ => ()
  | .srem _ _ => ()

end

/-- **No usable text wedges a result queue, and no other**: `handle_one` returns and takes
    the message from `:processing` in every world exactly for the JSON objects that name
    their run and whose key can be sent. -/
theorem handleOne_clears_iff {ρ : Type} [DecidableEq ρ] (lib : Lib ρ) (queue : String) (raw : ρ) :
    Clears lib queue raw ↔ Usable lib raw := by
  refine ⟨fun h => ?_, clears_of_usable⟩
  have hrun := h (fun _ => quietWorld) ⟨[], [raw]⟩
  by_cases hread : Unreadable lib raw
  · obtain ⟨e, he⟩ := handleOne_unreadable queue hread
    rw [he] at hrun
    cases hrun
  · -- an envelope with an id, so the key is what could not be sent
    unfold Unreadable at hread
    push Not at hread
    obtain ⟨message, hraw, hkeyed⟩ := hread
    refine ⟨message, hraw, hkeyed, ?_⟩
    by_contra hsend
    obtain ⟨hnone, href⟩ := not_or.1 hsend
    obtain ⟨text, htext⟩ := Option.ne_none_iff_exists'.1 href
    have hwp : (handleOne lib queue raw).wp exec () (fun ω => ∀ pending, ω (.scard pending) = 0)
        (fun r st => r = .error (.dataError text) ∧ st = Lists.without ⟨[], [raw]⟩ raw) ⟨[], [raw]⟩ :=
      handleOne_keyed hraw hkeyed fun _ => acknowledge_refused (Bool.eq_false_iff.2 hnone) htext
    obtain ⟨r, st, hrun', rfl, -⟩ := Prog.wp_alone exec () _ (fun _ => quietWorld)
      (fun _ _ => rfl) hwp
    rw [hrun] at hrun'
    cases hrun'

/-- An empty object, sent to a consumer with a handler that never fails. -/
def sampleLib : Lib String where
  loads raw := if raw = "\x7b\x7d" then .ok (.dict [])
    else .error "unexpected character: line 1 column 1 (char 0)"
  loadsBlob _ := .error "Input is a zero-length, empty document: line 1 column 1 (char 0)"
  refuses
    | .str _ => none
    | .int _ => none
    | .float _ => none
    | v => some ("Invalid input of type: '" ++ typeName v ++
        "'. Convert to a bytes, string, int or float first.")
  format
    | .str s => s
    | v => typeName v

/-- **An empty object wedges the queue**: `handle_one` raises, and the text stays. -/
theorem empty_object_wedges : ¬ ∀ (ω : ℕ → World String) (lists : Lists String),
    "\x7b\x7d" ∈ lists.processing →
      (handleOne sampleLib "results_message_queue" "\x7b\x7d").alone exec () ω lists =
        some (.ok (), lists.without "\x7b\x7d") := by
  intro h
  have hrun := h (fun _ => quietWorld) ⟨[], ["\x7b\x7d"]⟩ List.mem_cons_self
  have hraise : (handleOne sampleLib "results_message_queue" "\x7b\x7d").alone exec ()
      (fun _ => quietWorld) ⟨[], ["\x7b\x7d"]⟩ =
        some (.error (.keyError "private_id"), ⟨[], ["\x7b\x7d"]⟩) := by rfl
  rw [hraise] at hrun
  cases hrun

/-! ## The consumer -/

section
variable [DecidableEq ρ] (lib : Lib ρ) (queue : String)

/-- `recover_in_flight`: the last of `:processing` goes to the head of the queue, until
    nothing is left. -/
def recoverInFlight (lists : Lists ρ) : Lists ρ :=
  ⟨lists.processing.foldr List.cons lists.queue, []⟩

/-- The loop of `consume_result_queue`, for up to so many messages: what `handle_one`
    raises ends it.  `ω k` is the world of the message with `k` more to take. -/
def consume (ω : ℕ → ℕ → World ρ) : ℕ → Lists ρ → Lists ρ × Option Exn
  | 0, lists => (lists, none)
  | left + 1, lists =>
    match lists.queue with
    | [] => (lists, none)
    | raw :: rest =>
      match (handleOne lib queue raw).alone exec () (ω left) ⟨rest, lists.processing ++ [raw]⟩ with
      | none => (⟨rest, lists.processing ++ [raw]⟩, none)
      | some (.error e, lists) => (lists, some e)
      | some (.ok (), lists) => consume ω left lists

/-- What happens to a queue: a text is pushed, or `_consume_results` starts its consumer,
    which takes up to so many messages before it ends. -/
inductive Event (ρ : Type)
  | push (raw : ρ)
  | start (ω : ℕ → ℕ → World ρ) (taken : ℕ)

def step : Event ρ → Lists ρ → Option (Lists ρ)
  | .push raw, lists => some { lists with queue := lists.queue ++ [raw] }
  | .start ω taken, lists => some (consume lib queue ω taken (recoverInFlight lists)).1

end

section
variable [DecidableEq ρ] {lib : Lib ρ} {queue : String} {raw : ρ} {rest : List ρ}

omit [DecidableEq ρ] in
theorem recoverInFlight_eq (lists : Lists ρ) :
    recoverInFlight lists = ⟨lists.processing ++ lists.queue, []⟩ := by
  unfold recoverInFlight
  rw [List.foldr_cons_eq_append]
  simp

/-- What raises before any command ends the consumer with the text in `:processing`. -/
theorem consume_raise {e : Exn} (he : handleOne lib queue raw = .raise e) (ω : ℕ → ℕ → World ρ)
    (left : ℕ) (rest : List ρ) :
    consume lib queue ω (left + 1) ⟨raw :: rest, []⟩ = (⟨rest, [raw]⟩, some e) := by
  simp [consume, he, Prog.alone]

/-- The text is the first of what the consumer will be given. -/
def Heads (raw : ρ) (rest : List ρ) (lists : Lists ρ) : Prop :=
  ∃ more, lists.processing ++ lists.queue = raw :: (rest ++ more)

theorem Heads.step {e : Event ρ} {lists lists' : Lists ρ} (hraw : Unreadable lib raw)
    (h : Heads raw rest lists) (hstep : step lib queue e lists = some lists') :
    Heads raw rest lists' := by
  obtain ⟨more, hmore⟩ := h
  cases e with
  | push text =>
    cases hstep
    exact ⟨more ++ [text], by rw [← List.append_assoc, hmore]; simp⟩
  | start ω taken =>
    cases hstep
    rw [recoverInFlight_eq, hmore]
    cases taken with
    | zero => exact ⟨more, rfl⟩
    | succ left =>
      -- the first message it takes is the text
      obtain ⟨e, he⟩ := handleOne_unreadable queue hraw
      exact ⟨more, by rw [consume_raise he]; rfl⟩

/-- **A text that cannot be read stays at the head**, however often the consumer starts. -/
theorem unreadable_stays {events : List (Event ρ)} {lists lists' : Lists ρ} (hraw : Unreadable lib raw)
    (h : Heads raw rest lists) (hrun : Machine.run (step lib queue) events lists = some lists') :
    Heads raw rest lists' :=
  Machine.run_inv (fun _ hI hs => Heads.step hraw hI hs) (P := fun _ => True) (fun _ _ => trivial) h hrun

/-- Usable texts are all taken, one after another. -/
theorem consume_drains (ω : ℕ → ℕ → World ρ) : ∀ texts : List ρ, (∀ raw ∈ texts, Usable lib raw) →
    consume lib queue ω texts.length ⟨texts, []⟩ = (⟨[], []⟩, none) := by
  intro texts
  induction texts with
  | nil => exact fun _ => rfl
  | cons raw texts ih =>
    intro h
    have hclears : Clears lib queue raw := clears_of_usable (h raw List.mem_cons_self)
    have hrun := hclears (ω texts.length) ⟨texts, [raw]⟩
    have hwithout : Lists.without ⟨texts, [raw]⟩ raw = ⟨texts, []⟩ := by simp [Lists.without]
    rw [hwithout] at hrun
    rw [List.length_cons, consume]
    simp only [List.nil_append, hrun]
    exact ih fun text ht => h text (List.mem_cons_of_mem _ ht)

end

end Envelope

end BrainstormServer
