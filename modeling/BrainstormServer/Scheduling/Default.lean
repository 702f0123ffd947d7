/-
  The default policy (`app/routers/admin/scheduling/router.py`).

  A request is one transaction under read committed.  Moving the default is two
  statements: an `UPDATE` that clears the flag of the default, and one that sets it on
  another row, where a partial unique index allows one at most.  A request that clears
  the flag of a row, or deletes a row, has looked in an earlier statement whether the
  row is the default.

  * `pass`: the statements of a request, one at a time; `none` where it has to wait;
  * `Quiet`, `Holds`: a session has left the flags as they are committed, or holds the
    row of the default;
  * `careful`: a row that is cleared or deleted is not the default by then;
  * `single_default`: with careful statements exactly one policy is the default, in
    every committed state;
  * `default_deleted`: a `DELETE` that looked before the default was moved.
-/
import BrainstormServer.Conc.Machine
import BrainstormServer.Conc.TxTable
import Mathlib.Data.Int.Notation
import Mathlib.Data.Nat.Notation

namespace BrainstormServer

namespace Policies

open Conc

/-! ## Requests -/

/-- A row of `scheduling`, without its id. -/
structure Scheduling where
  name : String
  scheduleIntervalSeconds : ℤ
  priority : ℤ
  enabled : Bool
  isDefault : Bool
  isPublic : Bool
  supportIncluded : Bool
  manualQuotaLimit : ℤ
  manualQuotaWindowSeconds : ℤ
deriving DecidableEq

/-- `UpdateSchedulingBody`: a field is absent, `null`, or a value. -/
structure UpdateSchedulingBody where
  name : Option (Option String) := none
  scheduleIntervalSeconds : Option (Option ℤ) := none
  priority : Option (Option ℤ) := none
  enabled : Option (Option Bool) := none
  isDefault : Option (Option Bool) := none
  isPublic : Option (Option Bool) := none
  supportIncluded : Option (Option Bool) := none
  manualQuotaLimit : Option (Option ℤ) := none
  manualQuotaWindowSeconds : Option (Option ℤ) := none
deriving DecidableEq

/-- A request, with a body that has passed its validation. -/
inductive Request
  | create (body : Scheduling)
  | update (id : ℕ) (body : UpdateSchedulingBody)
  | delete (id : ℕ)

/-- `UPDATE … SET` the fields of the body; `none` where a column would be `NULL`. -/
def UpdateSchedulingBody.apply (body : UpdateSchedulingBody) (row : Scheduling) : Option Scheduling := do
  let name ← body.name.getD (some row.name)
  let scheduleIntervalSeconds ← body.scheduleIntervalSeconds.getD (some row.scheduleIntervalSeconds)
  let priority ← body.priority.getD (some row.priority)
  let enabled ← body.enabled.getD (some row.enabled)
  let isDefault ← body.isDefault.getD (some row.isDefault)
  let isPublic ← body.isPublic.getD (some row.isPublic)
  let supportIncluded ← body.supportIncluded.getD (some row.supportIncluded)
  let manualQuotaLimit ← body.manualQuotaLimit.getD (some row.manualQuotaLimit)
  let manualQuotaWindowSeconds ← body.manualQuotaWindowSeconds.getD (some row.manualQuotaWindowSeconds)
  pure ⟨name, scheduleIntervalSeconds, priority, enabled, isDefault, isPublic, supportIncluded,
    manualQuotaLimit, manualQuotaWindowSeconds⟩

/-- The flag that a body leaves on a row. -/
theorem UpdateSchedulingBody.apply_isDefault {body : UpdateSchedulingBody} {row row' : Scheduling}
    (h : body.apply row = some row') : body.isDefault.getD (some row.isDefault) = some row'.isDefault := by
  simp only [UpdateSchedulingBody.apply, Option.bind_eq_bind, Option.bind_eq_some_iff, Option.pure_def,
    Option.some.injEq] at h
  obtain ⟨-, -, -, -, -, -, -, -, flag, hflag, -, -, -, -, -, -, -, -, rfl⟩ := h
  exact hflag

/-! ## Statements -/

/-- What a request does after it has cleared the default. -/
inductive Setting
  | insert (body : Scheduling)
  | update (id : ℕ) (body : UpdateSchedulingBody)

/-- The next statement of a session. -/
inductive Phase
  | idle
  /-- `unset_default_scheduling_on_db` -/
  | unset (next : Setting)
  /-- its `UPDATE`, with the rows of its snapshot that it has not reached -/
  | unsetting (todo : List ℕ) (next : Setting)
  | insert (body : Scheduling)
  /-- `scheduling_exists_on_db` -/
  | exists_ (id : ℕ) (body : UpdateSchedulingBody)
  /-- `get_scheduling_on_db` before the flag is cleared -/
  | current (id : ℕ) (body : UpdateSchedulingBody)
  | update (id : ℕ) (body : UpdateSchedulingBody)
  /-- `get_scheduling_on_db` after the update: the answer to the request -/
  | reread (id : ℕ)
  /-- `get_scheduling_on_db` before a deletion -/
  | get (id : ℕ)
  | countUsers (id : ℕ)
  | delete (id : ℕ)
  | commit

def Setting.phase : Setting → Phase
  | .insert body => .insert body
  | .update id body => .update id body

/-- `update_scheduling_on_db`: no statement without fields. -/
def writing (id : ℕ) (body : UpdateSchedulingBody) : Phase :=
  if body = {} then .reread id else .update id body

/-- The first statement of a request. -/
def Request.phase : Request → Phase
  | .create body => if body.isDefault then .unset (.insert body) else .insert body
  | .update id body => .exists_ id body
  | .delete id => .get id

structure State (S : Type) where
  table : TxTable S ℕ Scheduling
  nextId : ℕ
  phase : S → Phase

/-- What other tables say: the users on the policy, and whether a row refers to it. -/
structure Outside where
  users : ℕ
  referenced : Bool

inductive Event (S : Type)
  | start (s : S) (request : Request)
  | pass (s : S) (ω : Outside)
  | rollback (s : S)

/-- Whether a row is there and is the default. -/
def marked (row : Option Scheduling) : Bool := row.any Scheduling.isDefault

section
variable {S : Type} [DecidableEq S]

/-- Another session has written the row, and it is or would be the default. -/
def unsettled (st : State S) (s : S) (k : ℕ) : Bool :=
  match st.table.lock k with
  | none => false
  | some s' =>
    match st.table.pending s' k with
    | none => false
    | some row => s' ≠ s ∧ (marked row ∨ marked (st.table.committed k))

/-- The unique index has to wait for the end of another transaction. -/
def blocked (st : State S) (s : S) (id : ℕ) : Bool :=
  (List.range st.nextId).any fun k => k ≠ id ∧ unsettled st s k

/-- The unique index refuses: another row is the default. -/
def taken (st : State S) (s : S) (id : ℕ) : Bool :=
  (List.range st.nextId).any fun k => k ≠ id ∧ marked (st.table.view s k)

/-- The request fails; `get_db` does not commit. -/
def fail (st : State S) (s : S) : State S :=
  { st with table := st.table.rollback s, phase := Function.update st.phase s .idle }

def State.at (st : State S) (s : S) (phase : Phase) : State S :=
  { st with phase := Function.update st.phase s phase }

/-- A row is written, if the row lock and the index let it. -/
def write (st : State S) (s : S) (id : ℕ) (row : Scheduling) (next : Phase) : Option (State S) :=
  if st.table.free s id = false then none
  else if row.isDefault ∧ blocked st s id then none
  else if row.isDefault ∧ taken st s id then some (fail st s)
  else some ({ st with table := st.table.write s id (some row) }.at s next)

/-- The next statement of `s`. -/
def pass (st : State S) (s : S) (ω : Outside) : Option (State S) :=
  match st.phase s with
  | .idle => none
  | .unset next =>
    some (st.at s (.unsetting ((List.range st.nextId).filter fun k => marked (st.table.view s k)) next))
  | .unsetting [] next => some (st.at s next.phase)
  | .unsetting (k :: todo) next =>
    if st.table.free s k = false then none
    else match st.table.view s k with
      | none => some (st.at s (.unsetting todo next))
      | some row =>
        if row.isDefault then
          some ({ st with table := st.table.write s k (some { row with isDefault := false }) }.at s
            (.unsetting todo next))
        else some (st.at s (.unsetting todo next))
  | .insert body =>
    write { st with nextId := st.nextId + 1 } s st.nextId body .commit
  | .exists_ id body =>
    if (st.table.view s id).isNone then some (fail st s)
    else if body.isDefault = some (some true) then some (st.at s (.unset (.update id body)))
    else if body.isDefault = some (some false) then some (st.at s (.current id body))
    else some (st.at s (writing id body))
  | .current id body =>
    if marked (st.table.view s id) then some (fail st s) else some (st.at s (writing id body))
  | .update id body =>
    if st.table.free s id = false then none
    else match st.table.view s id with
      | none => some (st.at s (.reread id))
      | some row =>
        match body.apply row with
        | none => some (fail st s)
        | some row' => write st s id row' (.reread id)
  | .reread id =>
    if (st.table.view s id).isNone then some (fail st s) else some (st.at s .commit)
  | .get id =>
    if (st.table.view s id).isNone ∨ marked (st.table.view s id) then some (fail st s)
    else some (st.at s (.countUsers id))
  | .countUsers id => if 0 < ω.users then some (fail st s) else some (st.at s (.delete id))
  | .delete id =>
    if st.table.free s id = false then none
    else if (st.table.view s id).isNone then some (st.at s .commit)
    else if ω.referenced then some (fail st s)
    else some ({ st with table := st.table.write s id none }.at s .commit)
  | .commit => some ({ st with table := st.table.commit s }.at s .idle)

def step : Event S → State S → Option (State S)
  | .start s request, st =>
    match st.phase s with
    | .idle => some (st.at s request.phase)
    | _ => none
  | .pass s ω, st => pass st s ω
  | .rollback s, st => some (fail st s)

/-- The rows that are there, and no request. -/
def initial (S : Type) (rows : ℕ → Option Scheduling) (nextId : ℕ) : State S :=
  ⟨.ofRows rows, nextId, fun _ => .idle⟩

/-! ## Flags -/

section
variable {t t' : TxTable S ℕ Scheduling} {s s' : S} {n n' : ℕ}

/-- Exactly one of the rows is the default. -/
def Single (rows : ℕ → Option Scheduling) : Prop := ∃! k, marked (rows k) = true

/-- `s` has written nothing. -/
def Untouched (t : TxTable S ℕ Scheduling) (s : S) : Prop := ∀ k, t.pending s k = none

/-- `s` has left every flag as it is committed. -/
def Quiet (t : TxTable S ℕ Scheduling) (s : S) : Prop := ∀ k, marked (t.view s k) = marked (t.committed k)

/-- `s` holds the row of the default. -/
def Holds (t : TxTable S ℕ Scheduling) (s : S) : Prop :=
  ∃ k, marked (t.committed k) = true ∧ t.lock k = some s

/-- `s` has cleared the flag of the default, and written nothing else. -/
def Cleared (t : TxTable S ℕ Scheduling) (s : S) : Prop :=
  ∃ k row, marked (t.committed k) = true ∧ t.lock k = some s ∧ t.pending s k = some (some row) ∧
    row.isDefault = false ∧ ∀ k', k' ≠ k → t.pending s k' = none

/-- `s` has moved the default. -/
def Moved (t : TxTable S ℕ Scheduling) (s : S) : Prop := Holds t s ∧ Single (t.view s)

/-- The row is deleted, and nobody is about to bring it back. -/
def Gone (t : TxTable S ℕ Scheduling) (k : ℕ) : Prop :=
  t.committed k = none ∧ ∀ s row, t.pending s k ≠ some (some row)

/-- The row is there, or it is gone. -/
def Known (t : TxTable S ℕ Scheduling) (n k : ℕ) : Prop := k < n ∧ (t.committed k ≠ none ∨ Gone t k)

/-- A request that sets the flag of a row that has been there. -/
def Setting.Ok (t : TxTable S ℕ Scheduling) (n : ℕ) : Setting → Prop
  | .insert body => body.isDefault = true
  | .update id body => Known t n id ∧ body.isDefault = some (some true)

/-- What a session has written by the time of each statement. -/
def Phase.Ok (t : TxTable S ℕ Scheduling) (n : ℕ) (s : S) : Phase → Prop
  | .idle => Untouched t s
  | .unset next => Untouched t s ∧ next.Ok t n
  | .unsetting _ next => (Untouched t s ∨ Cleared t s) ∧ next.Ok t n
  | .insert body => Untouched t s ∨ Cleared t s ∧ body.isDefault = true
  | .exists_ _ _ => Untouched t s
  | .current id _ => Untouched t s ∧ Known t n id
  | .update id body => (Untouched t s ∨ Cleared t s ∧ body.isDefault = some (some true)) ∧ Known t n id
  | .reread id => Quiet t s ∨ Moved t s ∨ Cleared t s ∧ Gone t id ∧ id < n
  | .get _ => Untouched t s
  | .countUsers _ => Untouched t s
  | .delete _ => Untouched t s
  | .commit => Quiet t s ∨ Moved t s

/-- The invariant of the system. -/
structure Inv (st : State S) : Prop where
  single : Single st.table.committed
  owned : st.table.Owned
  below : ∀ k, st.nextId ≤ k → st.table.committed k = none ∧ st.table.lock k = none
  phase : ∀ s, (st.phase s).Ok st.table st.nextId s

omit [DecidableEq S] in
theorem Untouched.view (h : Untouched t s) (k : ℕ) : t.view s k = t.committed k :=
  TxTable.view_eq_committed (h k)

omit [DecidableEq S] in
theorem Untouched.quiet (h : Untouched t s) : Quiet t s := fun k => by rw [h.view]

omit [DecidableEq S] in
theorem Cleared.holds (h : Cleared t s) : Holds t s := by
  obtain ⟨k, row, hk, hlock, -⟩ := h
  exact ⟨k, hk, hlock⟩

omit [DecidableEq S] in
/-- Where the flag of the only default is cleared, the session sees no default. -/
theorem Cleared.view (h : Cleared t s) (hsingle : Single t.committed) (k : ℕ) : marked (t.view s k) = false := by
  obtain ⟨d, row, hd, -, hpending, hrow, hother⟩ := h
  by_cases hk : k = d
  · rw [hk, TxTable.view, hpending]
    simpa [marked] using hrow
  · rw [TxTable.view_eq_committed (hother k hk)]
    by_contra hm
    exact hk (hsingle.unique (by simpa using hm) hd)

/-- What a step of another session leaves to `s`. -/
structure Kept (t t' : TxTable S ℕ Scheduling) (n : ℕ) (s : S) : Prop where
  untouched : Untouched t s → Untouched t' s
  quiet : Quiet t s → Quiet t' s
  cleared : Cleared t s → Cleared t' s
  moved : Moved t s → Moved t' s
  gone : ∀ k, Gone t k → k < n → Gone t' k
  known : ∀ k, k < n → t.committed k ≠ none → t'.committed k ≠ none ∨ Gone t' k

omit [DecidableEq S] in
theorem Kept.knows (h : Kept t t' n s) (hn : n ≤ n') {k : ℕ} (hk : Known t n k) : Known t' n' k := by
  obtain ⟨hlt, hk⟩ := hk
  refine ⟨Nat.lt_of_lt_of_le hlt hn, ?_⟩
  rcases hk with hk | hk
  · exact h.known k hlt hk
  · exact .inr (h.gone k hk hlt)

omit [DecidableEq S] in
theorem Kept.setting (h : Kept t t' n s) (hn : n ≤ n') {next : Setting} (hok : next.Ok t n) : next.Ok t' n' := by
  cases next with
  | insert body => exact hok
  | update id body => exact ⟨h.knows hn hok.1, hok.2⟩

omit [DecidableEq S] in
theorem Phase.Ok.kept {phase : Phase} (hok : phase.Ok t n s) (h : Kept t t' n s) (hn : n ≤ n') :
    phase.Ok t' n' s := by
  cases phase with
  | idle => exact h.untouched hok
  | unset next => exact ⟨h.untouched hok.1, h.setting hn hok.2⟩
  | unsetting todo next => exact ⟨hok.1.imp h.untouched h.cleared, h.setting hn hok.2⟩
  | insert body => exact hok.imp h.untouched fun hc => ⟨h.cleared hc.1, hc.2⟩
  | exists_ id body => exact h.untouched hok
  | current id body => exact ⟨h.untouched hok.1, h.knows hn hok.2⟩
  | update id body =>
    exact ⟨hok.1.imp h.untouched fun hc => ⟨h.cleared hc.1, hc.2⟩, h.knows hn hok.2⟩
  | reread id =>
    rcases hok with hok | hok | ⟨hc, hg, hlt⟩
    · exact .inl (h.quiet hok)
    · exact .inr (.inl (h.moved hok))
    · exact .inr (.inr ⟨h.cleared hc, h.gone id hg hlt, Nat.lt_of_lt_of_le hlt hn⟩)
  | get id => exact h.untouched hok
  | countUsers id => exact h.untouched hok
  | delete id => exact h.untouched hok
  | commit => exact hok.imp h.quiet h.moved

omit [DecidableEq S] in
/-- Flags that stay, rows that stay held. -/
theorem kept_of_flags (hpending : t'.pending s = t.pending s)
    (hflag : ∀ k, marked (t'.committed k) = marked (t.committed k))
    (hlock : ∀ k, t.lock k = some s → t'.lock k = some s) (hgone : ∀ k, Gone t k → k < n → Gone t' k)
    (hknown : ∀ k, k < n → t.committed k ≠ none → t'.committed k ≠ none ∨ Gone t' k) : Kept t t' n s := by
  have hview : ∀ k, marked (t'.view s k) = marked (t.view s k) := by
    intro k
    unfold TxTable.view
    rw [hpending]
    cases t.pending s k with
    | none => exact hflag k
    | some row => rfl
  refine ⟨?_, ?_, ?_, ?_, hgone, hknown⟩
  · intro h k
    rw [hpending]
    exact h k
  · intro h k
    rw [hview, hflag]
    exact h k
  · rintro ⟨k, row, hk, hl, hp, hrow, hother⟩
    refine ⟨k, row, (hflag k).trans hk, hlock k hl, by rw [hpending]; exact hp, hrow, fun k' hne => ?_⟩
    rw [hpending]
    exact hother k' hne
  · rintro ⟨⟨k, hk, hl⟩, hs⟩
    refine ⟨⟨k, (hflag k).trans hk, hlock k hl⟩, ?_⟩
    unfold Single at hs ⊢
    simpa only [hview] using hs

/-! ## Ending a transaction -/

theorem gone_commit {k : ℕ} (h : Gone t k) : Gone (t.commit s) k := by
  refine ⟨?_, fun s' row hp => ?_⟩
  · show t.view s k = none
    unfold TxTable.view
    cases hp : t.pending s k with
    | none => exact h.1
    | some v =>
      cases v with
      | none => rfl
      | some row => exact absurd hp (h.2 s row)
  · by_cases hs : s' = s
    · simp [TxTable.commit, hs] at hp
    · simp only [TxTable.commit, Function.update_of_ne hs] at hp
      exact h.2 s' row hp

/-- A row is committed, or its deletion is. -/
theorem known_commit (ho : t.Owned) {k : ℕ} (h : t.committed k ≠ none) :
    (t.commit s).committed k ≠ none ∨ Gone (t.commit s) k := by
  by_cases hv : t.view s k = none
  · refine .inr ⟨hv, fun s' row hp => ?_⟩
    have hpending : t.pending s k ≠ none := by
      intro hnone
      rw [TxTable.view_eq_committed hnone] at hv
      exact h hv
    by_cases hs : s' = s
    · simp [TxTable.commit, hs] at hp
    · simp only [TxTable.commit, Function.update_of_ne hs] at hp
      have hlock := ho s' k (by rw [hp]; simp)
      rw [ho s k hpending] at hlock
      exact hs (Option.some.inj hlock).symm
  · exact .inl hv

theorem gone_rollback {k : ℕ} (h : Gone t k) : Gone (t.rollback s) k := by
  refine ⟨h.1, fun s' row hp => ?_⟩
  by_cases hs : s' = s
  · simp [TxTable.rollback, hs] at hp
  · simp only [TxTable.rollback, Function.update_of_ne hs] at hp
    exact h.2 s' row hp

/-- The commit of a session that left the flags alone. -/
theorem kept_commit_quiet (ho : t.Owned) (hq : Quiet t s) (hs : s' ≠ s) : Kept t (t.commit s) n s' :=
  kept_of_flags (Function.update_of_ne hs _ _) (fun k => hq k)
    (fun k hl => by simp [TxTable.commit, hl, hs]) (fun _ hg _ => gone_commit hg) fun _ _ => known_commit ho

/-- The commit of the session that held the default: the others had left it alone. -/
theorem kept_commit_holds (ho : t.Owned) (hsingle : Single t.committed) (hh : Holds t s) (hs : s' ≠ s) :
    Kept t (t.commit s) n s' := by
  have hnot : ¬ Holds t s' := by
    rintro ⟨k, hk, hl⟩
    obtain ⟨d, hd, hld⟩ := hh
    rw [hsingle.unique hk hd, hld] at hl
    exact hs (Option.some.inj hl).symm
  refine ⟨fun h k => ?_, fun h k => ?_, fun h => absurd h.holds hnot, fun h => absurd h.1 hnot,
    fun _ hg _ => gone_commit hg, fun _ _ => known_commit ho⟩
  · simpa [TxTable.commit, hs] using h k
  · cases hp : t.pending s' k with
    | none =>
      rw [TxTable.view_eq_committed (by simpa [TxTable.commit, hs] using hp)]
    | some v =>
      -- a row that the other holds is committed as it was
      have hlock := ho s' k (by rw [hp]; simp)
      have hsame : (t.commit s).committed k = t.committed k :=
        TxTable.committed_commit_of_lock ho hlock (Ne.symm hs)
      have hview : (t.commit s).view s' k = t.view s' k := by
        simp [TxTable.view, TxTable.commit, hs, hp]
      rw [hview, hsame]
      exact h k

theorem kept_rollback (hs : s' ≠ s) : Kept t (t.rollback s) n s' :=
  kept_of_flags (Function.update_of_ne hs _ _) (fun _ => rfl)
    (fun k hl => by simp [TxTable.rollback, hl, hs]) (fun _ hg _ => gone_rollback hg) fun _ _ h => .inl h

omit [DecidableEq S] in
/-- A statement of another session. -/
theorem kept_stmt (hx : TxTable.Stmt s' (fun _ => True) t t') (hs : s ≠ s')
    (hgone : ∀ k, Gone t k → k < n → Gone t' k) : Kept t t' n s :=
  kept_of_flags (hx.pending_other hs) (fun k => by rw [hx.committed]) (fun k hl => (hx.lock_other hs).2 hl)
    hgone fun k _ h => .inl (by rw [hx.committed]; exact h)

end

/-! ## Steps -/

section
variable {st st' : State S} {s : S}

theorem untouched_rollback (t : TxTable S ℕ Scheduling) (s : S) : Untouched (t.rollback s) s := by
  intro k
  simp [TxTable.rollback]

theorem untouched_commit (t : TxTable S ℕ Scheduling) (s : S) : Untouched (t.commit s) s := by
  intro k
  simp [TxTable.commit]

/-- The sessions after a step of `s`. -/
theorem phase_update {t' : TxTable S ℕ Scheduling} {n' : ℕ} {phase : Phase}
    (hkept : ∀ s', s' ≠ s → (st.phase s').Ok t' n' s') (hok : phase.Ok t' n' s) (s' : S) :
    (Function.update st.phase s phase s').Ok t' n' s' := by
  by_cases hs : s' = s
  · rw [hs, Function.update_self]
    exact hok
  · rw [Function.update_of_ne hs]
    exact hkept s' hs

theorem Inv.goto (h : Inv st) {phase : Phase} (hok : phase.Ok st.table st.nextId s) : Inv (st.at s phase) where
  single := h.single
  owned := h.owned
  below := h.below
  phase := phase_update (fun s' _ => h.phase s') hok

theorem Inv.fail (h : Inv st) (s : S) : Inv (fail st s) where
  single := h.single
  owned := h.owned.rollback s
  below k hk := by
    refine ⟨(h.below k hk).1, ?_⟩
    simp [Policies.fail, TxTable.rollback, (h.below k hk).2]
  phase := phase_update (fun s' hs => (h.phase s').kept (kept_rollback hs) (Nat.le_refl _))
    (untouched_rollback _ _)

omit [DecidableEq S] in
/-- A row that is gone is not seen. -/
theorem Gone.view {t : TxTable S ℕ Scheduling} {k : ℕ} (h : Gone t k) (s : S) : t.view s k = none := by
  unfold TxTable.view
  cases hp : t.pending s k with
  | none => exact h.1
  | some row =>
    cases row with
    | none => rfl
    | some row => exact absurd hp (h.2 s row)

/-- Who writes a row that is there leaves those that are gone. -/
theorem gone_write {t : TxTable S ℕ Scheduling} {k k' n : ℕ} {v : Option Scheduling}
    (hthere : k < n → t.view s k ≠ none) (h : Gone t k') (hlt : k' < n) : Gone (t.write s k v) k' := by
  refine ⟨h.1, fun s' row hw => ?_⟩
  by_cases hk : k' = k
  · subst hk
    exact hthere hlt (h.view s)
  · by_cases hs : s' = s
    · subst hs
      simp only [TxTable.write, Function.update_self, Function.update_of_ne hk] at hw
      exact h.2 s' row hw
    · simp only [TxTable.write, Function.update_of_ne hs] at hw
      exact h.2 s' row hw

theorem setting_write {t : TxTable S ℕ Scheduling} {k n : ℕ} {v : Option Scheduling} {next : Setting}
    (hthere : k < n → t.view s k ≠ none) (h : next.Ok t n) : next.Ok (t.write s k v) n := by
  cases next with
  | insert body => exact h
  | update id body => exact ⟨⟨h.1.1, h.1.2.imp (fun hc => hc) fun hg => gone_write hthere hg h.1.1⟩, h.2⟩

/-- A row is written that is there, or that is new. -/
theorem Inv.written (h : Inv st) {k n' : ℕ} {v : Option Scheduling} {phase : Phase}
    (hfree : st.table.free s k = true) (hn : st.nextId ≤ n') (hk : k < n')
    (hthere : k < st.nextId → st.table.view s k ≠ none) (hok : phase.Ok (st.table.write s k v) n' s) :
    Inv (State.at { st with table := st.table.write s k v, nextId := n' } s phase) where
  single := h.single
  owned := h.owned.write hfree v
  below k' hk' := by
    have hle : n' ≤ k' := hk'
    have hne : k' ≠ k := by omega
    obtain ⟨hc, hl⟩ := h.below k' (Nat.le_trans hn hle)
    exact ⟨hc, by simpa [State.at, TxTable.write, hne] using hl⟩
  phase := by
    refine phase_update (fun s' hs => ?_) hok
    exact (h.phase s').kept (kept_stmt (.write hfree trivial v) hs fun _ => gone_write hthere) hn

/-- **The commit.**  What the session sees has exactly one default. -/
theorem Inv.committed (h : Inv st) (hok : Quiet st.table s ∨ Moved st.table s) :
    Inv (State.at { st with table := st.table.commit s } s .idle) where
  single := by
    show Single (st.table.view s)
    rcases hok with hq | hm
    · have hsingle := h.single
      unfold Single at hsingle ⊢
      have hflags : ∀ k, marked (st.table.view s k) = marked (st.table.committed k) := hq
      simpa only [hflags] using hsingle
    · exact hm.2
  owned := h.owned.commit s
  below k hk := by
    obtain ⟨hc, hl⟩ := h.below k hk
    have hp : st.table.pending s k = none := by
      by_contra hne
      rw [h.owned s k hne] at hl
      cases hl
    exact ⟨(TxTable.view_eq_committed hp).trans hc, by simp [State.at, TxTable.commit, hl]⟩
  phase := by
    refine phase_update (fun s' hs => ?_) (untouched_commit _ _)
    rcases hok with hq | hm
    · exact (h.phase s').kept (kept_commit_quiet h.owned hq hs) (Nat.le_refl _)
    · exact (h.phase s').kept (kept_commit_holds h.owned h.single hm.1 hs) (Nat.le_refl _)

/-! ## Statements that keep the invariant -/

/-- What the session sees after it has written a row. -/
theorem marked_write (t : TxTable S ℕ Scheduling) (s : S) (k : ℕ) (v : Option Scheduling) (k' : ℕ) :
    marked ((t.write s k v).view s k') = if k' = k then marked v else marked (t.view s k') := by
  rw [TxTable.view_write]
  by_cases hk : k' = k
  · simp [hk]
  · simp [hk]

/-- A row whose flag stays. -/
theorem Untouched.quiet_write {t : TxTable S ℕ Scheduling} (h : Untouched t s) {k : ℕ} {v : Option Scheduling}
    (hflag : marked v = marked (t.committed k)) : Quiet (t.write s k v) s := by
  intro k'
  rw [marked_write, TxTable.committed_write]
  split_ifs with hk
  · rw [hk, hflag]
  · rw [h.view]

/-- The flag of the default, cleared. -/
theorem Untouched.cleared_write {t : TxTable S ℕ Scheduling} (h : Untouched t s) {k : ℕ} {row : Scheduling}
    (hrow : t.view s k = some row) (hdefault : row.isDefault = true) :
    Cleared (t.write s k (some { row with isDefault := false })) s := by
  refine ⟨k, { row with isDefault := false }, ?_, ?_, ?_, rfl, fun k' hk => ?_⟩
  · rw [TxTable.committed_write, ← h.view k, hrow]
    simpa [marked] using hdefault
  · simp [TxTable.write]
  · simp [TxTable.write]
  · simpa [TxTable.write, hk] using h k'

/-- The flag is set on a row, where it was cleared. -/
theorem Cleared.moved_write {t : TxTable S ℕ Scheduling} (h : Cleared t s) (hsingle : Single t.committed)
    {k : ℕ} {row : Scheduling} (hdefault : row.isDefault = true) : Moved (t.write s k (some row)) s := by
  obtain ⟨d, hd, hlock⟩ := h.holds
  constructor
  · refine ⟨d, hd, ?_⟩
    by_cases hk : d = k
    · simp [TxTable.write, hk]
    · simpa [TxTable.write, hk] using hlock
  · refine ⟨k, ?_, fun k' hk' => ?_⟩
    · dsimp only
      rw [marked_write, if_pos rfl]
      simpa [marked] using hdefault
    · dsimp only at hk'
      rw [marked_write] at hk'
      by_contra hne
      rw [if_neg hne, h.view hsingle k'] at hk'
      cases hk'

omit [DecidableEq S] in
theorem taken_eq_false {id : ℕ} (h : taken st s id = false) {k : ℕ} (hk : k < st.nextId) (hne : k ≠ id) :
    marked (st.table.view s k) = false := by
  rw [taken, List.any_eq_false] at h
  have hnot := h k (List.mem_range.2 hk)
  simpa [hne] using hnot

omit [DecidableEq S] in
/-- The default is one of the rows. -/
theorem Inv.marked_lt (h : Inv st) {k : ℕ} (hk : marked (st.table.committed k) = true) : k < st.nextId := by
  by_contra hle
  rw [(h.below k (Nat.le_of_not_lt hle)).1] at hk
  cases hk

omit [DecidableEq S] in
/-- While the flag is where it was, the index lets only the default itself be set. -/
theorem Inv.untouched_taken (h : Inv st) (hu : Untouched st.table s) {id : ℕ} (ht : taken st s id = false) :
    marked (st.table.committed id) = true := by
  obtain ⟨d, hd, -⟩ := h.single
  by_cases hid : d = id
  · rw [← hid]
    exact hd
  · have hnot := taken_eq_false ht (h.marked_lt hd) hid
    rw [hu.view, hd] at hnot
    cases hnot

/-- A row that is deleted, or whose flag is cleared, is not the default by then. -/
def careful (st : State S) (s : S) (ω : Outside) : Bool :=
  match st.phase s with
  | .delete id => ω.referenced ∨ marked (st.table.view s id) = false
  | .update id body =>
    body.isDefault ≠ some (some false) ∨ marked (st.table.view s id) = false ∨
      (st.table.view s id).bind body.apply = none
  | _ => true

omit [DecidableEq S] in
/-- Ids that are given out and not used. -/
theorem Inv.skip (h : Inv st) {n : ℕ} (hn : st.nextId ≤ n) : Inv { st with nextId := n } where
  single := h.single
  owned := h.owned
  below k hk := h.below k (Nat.le_trans hn hk)
  phase s' := (h.phase s').kept ⟨id, id, id, id, fun _ hg _ => hg, fun _ _ hc => .inl hc⟩ hn

/-- A row that is written with the index in the way of a second default. -/
theorem Inv.write {id n : ℕ} {row : Scheduling} {next : Phase} (h : Inv st) (hn : st.nextId ≤ n) (hid : id < n)
    (hthere : id < st.nextId → st.table.view s id ≠ none)
    (hok : (row.isDefault = true → taken { st with nextId := n } s id = false) →
      next.Ok (st.table.write s id (some row)) n s)
    (hw : write { st with nextId := n } s id row next = some st') : Inv st' := by
  unfold Policies.write at hw
  split_ifs at hw with hfree hblocked htaken
  · cases hw
    exact (h.skip hn).fail s
  · cases hw
    refine h.written (by simpa using hfree) hn hid hthere (hok fun hdefault => ?_)
    by_contra ht
    exact htaken ⟨hdefault, by simpa using ht⟩

theorem Inv.pass_unsetting {todo : List ℕ} {next : Setting} (h : Inv st)
    (hphase : st.phase s = .unsetting todo next) {ω : Outside} (hp : pass st s ω = some st') : Inv st' := by
  have hok := h.phase s
  rw [hphase] at hok
  obtain ⟨hwritten, hnext⟩ := hok
  simp only [pass, hphase] at hp
  cases todo with
  | nil =>
    cases hp
    refine h.goto ?_
    cases next with
    | insert body => exact hwritten.imp (fun hu => hu) fun hc => ⟨hc, hnext⟩
    | update id body => exact ⟨hwritten.imp (fun hu => hu) fun hc => ⟨hc, hnext.2⟩, hnext.1⟩
  | cons k todo =>
    simp only at hp
    split_ifs at hp with hfree
    cases hview : st.table.view s k with
    | none =>
      rw [hview] at hp
      cases hp
      exact h.goto ⟨hwritten, hnext⟩
    | some row =>
      rw [hview] at hp
      simp only at hp
      split_ifs at hp with hdefault
      · -- the flag that is cleared is the only one
        cases hp
        have hthere : k < st.nextId → st.table.view s k ≠ none := fun _ => by simp [hview]
        rcases hwritten with hu | hc
        · have hmarked : marked (st.table.committed k) = true := by
            rw [← hu.view k, hview]
            exact hdefault
          exact h.written (by simpa using hfree) (Nat.le_refl _) (h.marked_lt hmarked) hthere
            ⟨.inr (hu.cleared_write hview hdefault), setting_write hthere hnext⟩
        · have hnot := hc.view h.single k
          rw [hview] at hnot
          exact absurd (hdefault.symm.trans hnot) (by simp)
      · cases hp
        exact h.goto ⟨hwritten, hnext⟩

theorem Inv.pass_insert {body : Scheduling} (h : Inv st) (hphase : st.phase s = .insert body)
    {ω : Outside} (hp : pass st s ω = some st') : Inv st' := by
  have hok := h.phase s
  rw [hphase] at hok
  simp only [pass, hphase] at hp
  have hnew : st.table.committed st.nextId = none := (h.below st.nextId (Nat.le_refl _)).1
  refine h.write (Nat.le_succ _) (Nat.lt_succ_self _) (fun hlt => absurd hlt (Nat.lt_irrefl _)) (fun ht => ?_) hp
  rcases hok with hu | ⟨hc, hdefault⟩
  · cases hflag : body.isDefault with
    | true =>
      have hmarked := (h.skip (Nat.le_succ _)).untouched_taken hu (ht hflag)
      rw [hnew] at hmarked
      cases hmarked
    | false =>
      refine .inl (hu.quiet_write ?_)
      rw [hnew]
      exact hflag
  · exact .inr (hc.moved_write h.single hdefault)

theorem Inv.pass_update {id : ℕ} {body : UpdateSchedulingBody} (h : Inv st)
    (hphase : st.phase s = .update id body) {ω : Outside} (hcareful : careful st s ω = true)
    (hp : pass st s ω = some st') : Inv st' := by
  have hok := h.phase s
  rw [hphase] at hok
  obtain ⟨hwritten, hlt, hknown⟩ := hok
  simp only [pass, hphase] at hp
  split_ifs at hp with hfree
  cases hview : st.table.view s id with
  | none =>
    rw [hview] at hp
    cases hp
    refine h.goto ?_
    rcases hwritten with hu | ⟨hc, hset⟩
    · exact .inl hu.quiet
    · refine .inr (.inr ⟨hc, ?_, hlt⟩)
      -- the session has written the old default, and that row it would see
      have hnone : st.table.committed id = none := by
        obtain ⟨d, row, -, -, hpending, -, hother⟩ := hc
        by_cases hd : id = d
        · rw [hd, TxTable.view, hpending] at hview
          cases hview
        · rw [← TxTable.view_eq_committed (hother id hd), hview]
      rcases hknown with hthere | hgone
      · exact absurd hnone hthere
      · exact hgone
  | some row =>
    rw [hview] at hp
    simp only at hp
    cases happly : body.apply row with
    | none =>
      rw [happly] at hp
      cases hp
      exact h.fail s
    | some row' =>
      rw [happly] at hp
      have hflag := UpdateSchedulingBody.apply_isDefault happly
      refine h.write (Nat.le_refl _) hlt (fun _ => by simp [hview]) (fun ht => ?_) hp
      rcases hwritten with hu | ⟨hc, hset⟩
      · refine .inl (hu.quiet_write ?_)
        have hrow : marked (st.table.committed id) = row.isDefault := by
          rw [← hu.view id, hview]
          rfl
        cases hset : body.isDefault with
        | none =>
          rw [hset] at hflag
          exact (Option.some.inj hflag).symm.trans hrow.symm
        | some flag =>
          rw [hset] at hflag
          have hflag : flag = some row'.isDefault := hflag
          cases hdefault : row'.isDefault with
          | true => exact hdefault.trans (h.untouched_taken hu (ht hdefault)).symm
          | false =>
            rw [hdefault] at hflag
            have hnot : row.isDefault = false := by
              simpa [careful, hphase, hset, hflag, hview, happly, marked] using hcareful
            exact hdefault.trans (hnot.symm.trans hrow.symm)
      · rw [hset] at hflag
        exact .inr (.inl (hc.moved_write h.single (Option.some.inj hflag).symm))

theorem Inv.pass_delete {id : ℕ} (h : Inv st) (hphase : st.phase s = .delete id) {ω : Outside}
    (hcareful : careful st s ω = true) (hp : pass st s ω = some st') : Inv st' := by
  have hok := h.phase s
  rw [hphase] at hok
  have hu : Untouched st.table s := hok
  simp only [pass, hphase] at hp
  split_ifs at hp with hfree hnone href
  · cases hp
    exact h.goto (.inl hu.quiet)
  · cases hp
    exact h.fail s
  · cases hp
    obtain ⟨row, hrow⟩ := Option.ne_none_iff_exists'.1 (by simpa using hnone)
    have hnot : row.isDefault = false := by
      simpa [careful, hphase, href, hrow, marked] using hcareful
    have hlt : id < st.nextId := by
      by_contra hle
      rw [hu.view, (h.below id (Nat.le_of_not_lt hle)).1] at hrow
      cases hrow
    refine h.written (by simpa using hfree) (Nat.le_refl _) hlt (fun _ => by simp [hrow]) (.inl ?_)
    refine hu.quiet_write ?_
    rw [← hu.view id, hrow]
    exact hnot.symm

omit [DecidableEq S] in
/-- A row that a session sees before it writes is there. -/
theorem Inv.known_of_view (h : Inv st) (hu : Untouched st.table s) {id : ℕ} (hview : st.table.view s id ≠ none) :
    Known st.table st.nextId id := by
  rw [hu.view] at hview
  refine ⟨?_, .inl hview⟩
  by_contra hle
  exact hview (h.below id (Nat.le_of_not_lt hle)).1

omit [DecidableEq S] in
theorem writing_ok {t : TxTable S ℕ Scheduling} {n id : ℕ} {body : UpdateSchedulingBody} (hu : Untouched t s)
    (hknown : Known t n id) : (writing id body).Ok t n s := by
  unfold writing
  split_ifs with hbody
  · exact .inl hu.quiet
  · exact ⟨.inl hu, hknown⟩

omit [DecidableEq S] in
theorem request_ok {t : TxTable S ℕ Scheduling} {n : ℕ} (hu : Untouched t s) (request : Request) :
    request.phase.Ok t n s := by
  cases request with
  | create body =>
    simp only [Request.phase]
    split_ifs with hdefault
    · exact ⟨hu, hdefault⟩
    · exact .inl hu
  | update id body => exact hu
  | delete id => exact hu

/-- **One statement** keeps the invariant. -/
theorem Inv.pass {ω : Outside} (h : Inv st) (hcareful : careful st s ω = true) (hp : pass st s ω = some st') :
    Inv st' := by
  have hok := h.phase s
  cases hphase : st.phase s with
  | idle =>
    simp only [Policies.pass, hphase] at hp
    cases hp
  | unset next =>
    rw [hphase] at hok
    simp only [Policies.pass, hphase] at hp
    cases hp
    exact h.goto ⟨.inl hok.1, hok.2⟩
  | unsetting todo next => exact h.pass_unsetting hphase hp
  | insert body => exact h.pass_insert hphase hp
  | exists_ id body =>
    rw [hphase] at hok
    have hu : Untouched st.table s := hok
    simp only [Policies.pass, hphase] at hp
    split_ifs at hp with hnone htrue hfalse
    · cases hp
      exact h.fail s
    all_goals
      have hknown : Known st.table st.nextId id := h.known_of_view hu (by simpa using hnone)
      cases hp
    · exact h.goto ⟨hu, hknown, htrue⟩
    · exact h.goto ⟨hu, hknown⟩
    · exact h.goto (writing_ok hu hknown)
  | current id body =>
    rw [hphase] at hok
    simp only [Policies.pass, hphase] at hp
    split_ifs at hp with hmarked
    · cases hp
      exact h.fail s
    · cases hp
      exact h.goto (writing_ok hok.1 hok.2)
  | update id body => exact h.pass_update hphase hcareful hp
  | reread id =>
    rw [hphase] at hok
    simp only [Policies.pass, hphase] at hp
    split_ifs at hp with hnone
    · cases hp
      exact h.fail s
    · cases hp
      refine h.goto ?_
      rcases hok with hq | hm | ⟨-, hgone, -⟩
      · exact .inl hq
      · exact .inr hm
      · exact absurd (by rw [hgone.view s]; rfl) hnone
  | get id =>
    rw [hphase] at hok
    simp only [Policies.pass, hphase] at hp
    split_ifs at hp with hrefused
    · cases hp
      exact h.fail s
    · cases hp
      exact h.goto hok
  | countUsers id =>
    rw [hphase] at hok
    simp only [Policies.pass, hphase] at hp
    split_ifs at hp with husers
    · cases hp
      exact h.fail s
    · cases hp
      exact h.goto hok
  | delete id => exact h.pass_delete hphase hcareful hp
  | commit =>
    rw [hphase] at hok
    simp only [Policies.pass, hphase] at hp
    cases hp
    exact h.committed hok

/-- **One event** keeps the invariant. -/
theorem Inv.step {e : Event S} (h : Inv st) (hcareful : ∀ s ω, e = .pass s ω → careful st s ω = true)
    (hstep : step e st = some st') : Inv st' := by
  cases e with
  | start s request =>
    simp only [Policies.step] at hstep
    have hok := h.phase s
    split at hstep
    · rename_i hidle
      rw [hidle] at hok
      cases hstep
      exact h.goto (request_ok hok request)
    · cases hstep
  | pass s ω => exact h.pass (hcareful s ω rfl) hstep
  | rollback s =>
    cases hstep
    exact h.fail s

end

end

/-! ## Runs -/

theorem inv_initial {S : Type} {rows : ℕ → Option Scheduling} {nextId : ℕ} (hsingle : Single rows)
    (hbelow : ∀ k, nextId ≤ k → rows k = none) : Inv (initial S rows nextId) where
  single := hsingle
  owned := TxTable.owned_ofRows rows
  below k hk := ⟨hbelow k hk, rfl⟩
  phase _ _ := rfl

/-- Whether an event is a careful one. -/
def checked {S : Type} : Event S → State S → Bool
  | .pass s ω, st => careful st s ω
  | _, _ => true

/-- **The default policy.**  From rows of which one is the default, in every run of any
requests: if no row that is deleted, or whose flag an `UPDATE` clears, is the default
when the statement takes effect, then exactly one committed row is the default. -/
theorem single_default {S : Type} [DecidableEq S] (rows : ℕ → Option Scheduling) (nextId : ℕ)
    (hsingle : Single rows) (hbelow : ∀ k, nextId ≤ k → rows k = none) (events : List (Event S)) (st : State S)
    (h : Machine.run step events (initial S rows nextId) = some st)
    (hcareful : ∀ before s ω after stBefore, events = before ++ .pass s ω :: after →
      Machine.run step before (initial S rows nextId) = some stBefore → careful stBefore s ω = true) :
    ∃! k, marked (st.table.committed k) = true := by
  have hinv : Inv st := by
    refine Machine.run_inv_along ?_ (inv_initial hsingle hbelow) h
    intro before e after st₁ st₂ hevents hrun hstep hI
    refine hI.step (fun s ω he => ?_) hstep
    exact hcareful before s ω after st₁ (by rw [hevents, he]) hrun
  exact hinv.single

/-! ## Two runs -/

def standard : Scheduling := ⟨"standard", 3600, 0, true, true, true, false, 0, 86400⟩

def premium : Scheduling := ⟨"premium", 600, 10, true, false, false, true, 3, 86400⟩

def twoPolicies (k : ℕ) : Option Scheduling := [standard, premium][k]?

theorem single_twoPolicies : Single twoPolicies := by
  refine ⟨0, rfl, fun k hk => ?_⟩
  rcases k with _ | _ | k
  · rfl
  · cases hk
  · cases hk

theorem twoPolicies_below (k : ℕ) (hk : 2 ≤ k) : twoPolicies k = none :=
  List.getElem?_eq_none hk

/-- Nobody is on a policy, and nothing refers to it. -/
def unreferenced : Outside := ⟨0, false⟩

/-- `n` statements of a session. -/
def passes {S : Type} (s : S) (n : ℕ) : List (Event S) := List.replicate n (.pass s unreferenced)

def makeDefault : UpdateSchedulingBody := { isDefault := some (some true) }

/-- The default is moved to the premium policy, and the standard one is deleted. -/
def moveThenDelete : List (Event Bool) :=
  .start true (.update 1 makeDefault) :: passes true 7 ++ .start false (.delete 0) :: passes false 4

/-- A deletion of the policy that is no longer the default. -/
theorem moved_then_deleted : ∃ st,
    Machine.run step moveThenDelete (initial Bool twoPolicies 2) = some st ∧
    st.table.committed 0 = none ∧ ∃! k, marked (st.table.committed k) = true := by
  have hcheck : ((Machine.run step moveThenDelete (initial Bool twoPolicies 2)).map fun st =>
      st.table.committed 0) = some none := by decide
  have halong : Machine.along step checked moveThenDelete (initial Bool twoPolicies 2) = true := by
    decide
  obtain ⟨st, hrun, hnone⟩ := Option.map_eq_some_iff.1 hcheck
  refine ⟨st, hrun, hnone, ?_⟩
  refine single_default twoPolicies 2 single_twoPolicies twoPolicies_below moveThenDelete st hrun ?_
  intro before s ω after stBefore hevents hbefore
  rw [hevents] at halong
  have hchecked := Machine.check_of_along halong hbefore
  exact hchecked

/-- The premium policy is found not to be the default; it becomes the default; it is deleted. -/
def lookMoveDelete : List (Event Bool) :=
  .start false (.delete 1) :: passes false 2 ++ .start true (.update 1 makeDefault) :: passes true 7 ++
    passes false 2

/-- **No default is left.**  A deletion looks for the flag before it is moved. -/
theorem default_deleted : Single twoPolicies ∧ (∀ k, 2 ≤ k → twoPolicies k = none) ∧ ∃ st,
    Machine.run step lookMoveDelete (initial Bool twoPolicies 2) = some st ∧
    ¬ ∃! k, marked (st.table.committed k) = true := by
  refine ⟨single_twoPolicies, twoPolicies_below, _, rfl, ?_⟩
  rintro ⟨k, hk, -⟩
  rcases k with _ | _ | k
  · exact absurd hk (by decide)
  · exact absurd hk (by decide)
  · cases hk

end Policies

end BrainstormServer
