/-
  Minting short links and resolving them (`create_short_url` and `get_short_url_entity` of
  `app/services/shorturl_service.py`, `app/repos/short_url_repo.py`).

  A request for a link asks whether the entity has a code.  If not, it makes one and inserts it
  in a savepoint, up to five times.  Where the insert is refused, it asks again: another request
  may have been faster.  The transaction is committed when the request is answered.

  * `At`: where a request is, and what it then knows of the table;
  * `Sound`: the codes and the entities in the table are all different, and every answer is
    a row of it;
  * `minted_for_good`: a link that was committed resolves to its entity for ever, and whoever asks
    for a link to the entity is given this one;
  * `exhausted_only_if_taken`: a request gives up only if each of its five codes had been taken, by
    other entities.
-/
import BrainstormServer.Conc.Machine
import BrainstormServer.Conc.Prog
import BrainstormServer.Conc.Unique
import BrainstormServer.Links.Codes

namespace BrainstormServer

namespace Links

open Conc Prog

/-! ## The table -/

/-- `EntityKind`. -/
inductive EntityKind
  | profile
  | event
  | address
  | hashtag
  | tag
  deriving DecidableEq

/-- What a code stands for: the kind, and the key in its stored form. -/
structure Entity where
  kind : EntityKind
  entityKey : Text
  deriving DecidableEq

/-- `ShortUrl`. -/
structure ShortUrl where
  shortCode : Text
  entity : Entity
  relays : List Text
  deriving DecidableEq

/-- The unique constraints, on `short_code` and on `(kind, entity_key)`. -/
def clash (row other : ShortUrl) : Bool := row.shortCode = other.shortCode || row.entity = other.entity

abbrev Table (S : Type) := UniqueTable S ShortUrl

/-! ## The programs -/

inductive Cmd
  | generateShortCode
  /-- `select_short_url_by_entity_on_db` -/
  | selectByEntity (entity : Entity)
  /-- `insert_short_url_on_db`, in a savepoint -/
  | insert (row : ShortUrl)

/-- The answers; that of an insert is whether there was no `IntegrityError`. -/
@[reducible] def Cmd.Ans : Cmd → Type
  | generateShortCode => ShortCode
  | selectByEntity _ => Option ShortUrl
  | insert _ => Bool

/-- How a request fails: with the 500, or cut off. -/
inductive Failed
  | exhausted
  | cutOff
  deriving DecidableEq

abbrev Act (α : Type) := Prog (C := Cmd) Cmd.Ans Failed α

/-- Execute a command. -/
def await (c : Cmd) : Act c.Ans := call c

/-- `_MAX_GENERATION_ATTEMPTS`. -/
def maxGenerationAttempts : ℕ := 5

/-- The loop of `create_short_url`, with so many attempts left. -/
def mint (entity : Entity) (relays : List Text) : ℕ → Act ShortUrl
  | 0 => .raise .exhausted
  | attempts + 1 => do
    let code ← await .generateShortCode
    let inserted ← await (.insert ⟨code.text, entity, relays⟩)
    if inserted then return ⟨code.text, entity, relays⟩
    match ← await (.selectByEntity entity) with
    | some concurrent => return concurrent
    | none => mint entity relays attempts

/-- `create_short_url`. -/
def createShortUrl (entity : Entity) (relays : List Text) : Act ShortUrl := do
  match ← await (.selectByEntity entity) with
  | some existing => return existing
  | none => mint entity relays maxGenerationAttempts

/-- `get_short_url_endpoint`: the row, or the status of the answer. -/
def getShortUrl {S : Type} (t : Table S) (raw : Text) : Except ℕ ShortUrl :=
  if pathPattern raw then
    match t.committed.find? fun row => row.shortCode = normalizeShortCode raw with
    | some row => .ok row
    | none => .error 404
  else .error 422

/-! ## The system -/

/-- A request: for which entity, what is left to do, the codes that it has made, and whether its
    transaction is over. -/
structure Call where
  entity : Entity
  relays : List Text
  rest : Act ShortUrl
  tried : List Text
  ended : Bool

structure System (S : Type) where
  table : Table S
  calls : S → Option Call

/-- Nothing has been minted yet. -/
def System.initial {S : Type} : System S := ⟨.empty, fun _ => none⟩

inductive Event (S : Type)
  | request (s : S) (entity : Entity) (relays : List Text)
  /-- the next command of a request; the code that is made, if it makes one -/
  | command (s : S) (code : ShortCode)
  /-- the request is answered, and its transaction committed -/
  | commit (s : S)
  /-- the request has failed, or is cut off -/
  | rollback (s : S)

/-- What is left of a request that is rolled back. -/
def failed : Act ShortUrl → Act ShortUrl
  | .raise e => .raise e
  | _ => .raise .cutOff

/-- A request has its answer. -/
def answered : Act ShortUrl → Bool
  | .ret _ => true
  | _ => false

/-- The codes that a command makes. -/
def Cmd.codes (code : ShortCode) : Cmd → List Text
  | generateShortCode => [code.text]
  | _ => []

section
variable {S : Type} [DecidableEq S]

/-- The effect of a command; `none` if the session has to wait. -/
def exec (s : S) (code : ShortCode) : (c : Cmd) → Table S → Option (c.Ans × Table S)
  | .generateShortCode, t => some (code, t)
  | .selectByEntity entity, t => some ((t.visible s).find? fun row => row.entity = entity, t)
  | .insert row, t => t.insert clash s row

/-- A request goes on. -/
def System.goOn (st : System S) (s : S) (table : Table S) (c : Call) : System S :=
  ⟨table, Function.update st.calls s (some c)⟩

/-- A request executes its next command. -/
def System.command (st : System S) (s : S) (code : ShortCode) (c : Call) : Option (System S) :=
  match c.rest with
  | .op cmd k => (exec s code cmd st.table).map fun r =>
    st.goOn s r.2 { c with rest := k r.1, tried := c.tried ++ cmd.codes code }
  | _ => none

def step : Event S → System S → Option (System S)
  | .request s entity relays, st => if (st.calls s).isSome then none else
    some (st.goOn s st.table ⟨entity, relays, createShortUrl entity relays, [], false⟩)
  | .command s code, st => (st.calls s).bind (st.command s code)
  | .commit s, st => (st.calls s).bind fun c => if answered c.rest && !c.ended then
    some (st.goOn s (st.table.commit s) { c with ended := true }) else none
  | .rollback s, st => (st.calls s).bind fun c => if c.ended then none else
    some (st.goOn s (st.table.rollback s) { c with rest := failed c.rest, ended := true })

end

/-! ## Where a request is -/

section
variable (entity : Entity) (relays : List Text) (attempts : ℕ)

/-- Ask who was faster. -/
def settling : Act ShortUrl := .op (.selectByEntity entity) fun
  | some concurrent => .ret concurrent
  | none => mint entity relays attempts

def inserting (code : ShortCode) : Act ShortUrl := .op (.insert ⟨code.text, entity, relays⟩) fun inserted =>
  if inserted then .ret ⟨code.text, entity, relays⟩ else settling entity relays attempts

theorem mint_succ : mint entity relays (attempts + 1) =
    .op .generateShortCode (inserting entity relays attempts) := by
  unfold mint
  rfl

theorem createShortUrl_eq : createShortUrl entity relays = settling entity relays maxGenerationAttempts := by
  unfold createShortUrl
  rfl

end

section
variable {S : Type} [DecidableEq S]

/-- Another entity has the code. -/
def Taken (t : Table S) (entity : Entity) (code : Text) : Prop :=
  ∃ row ∈ t.committed, row.shortCode = code ∧ row.entity ≠ entity

/-- A row is committed, or is the session's own. -/
def Stands (t : Table S) (s : S) (row : ShortUrl) : Prop := row ∈ t.committed ∨ (s, row) ∈ t.pending

/-- Where a request is.  Of the codes that it has made, all but the last one were taken when it
    makes another. -/
inductive At (s : S) (t : Table S) (entity : Entity) (relays : List Text) (tried : List Text) : Act ShortUrl → Prop
  | asking (h : tried = []) : At s t entity relays tried (settling entity relays maxGenerationAttempts)
  | minting (attempts : ℕ) (hcount : tried.length + attempts = maxGenerationAttempts)
      (htaken : ∀ code ∈ tried, Taken t entity code) : At s t entity relays tried (mint entity relays attempts)
  | inserting (attempts : ℕ) (code : ShortCode) (before : List Text) (htried : tried = before ++ [code.text])
      (hcount : tried.length + attempts = maxGenerationAttempts) (htaken : ∀ code ∈ before, Taken t entity code) :
      At s t entity relays tried (inserting entity relays attempts code)
  | settling (attempts : ℕ) (code : ShortCode) (before : List Text) (htried : tried = before ++ [code.text])
      (hcount : tried.length + attempts = maxGenerationAttempts) (htaken : ∀ code ∈ before, Taken t entity code)
      (hclash : ∃ row ∈ t.committed, clash ⟨code.text, entity, relays⟩ row = true) :
      At s t entity relays tried (settling entity relays attempts)
  | answered (row : ShortUrl) (hentity : row.entity = entity) (hstands : Stands t s row) :
      At s t entity relays tried (.ret row)
  | cutOff : At s t entity relays tried (.raise .cutOff)

variable {st st' : System S} {e : Event S} {s : S} {t t' : Table S} {row : ShortUrl}

omit [DecidableEq S] in
theorem Taken.mono {entity : Entity} {code : Text} (h : Taken t entity code)
    (hcommitted : ∀ row ∈ t.committed, row ∈ t'.committed) : Taken t' entity code := by
  obtain ⟨row, hrow, hcode, hentity⟩ := h
  exact ⟨row, hcommitted row hrow, hcode, hentity⟩

omit [DecidableEq S] in
/-- What a request knows of the table stays true while rows are only added, and its own stand. -/
theorem At.mono {entity : Entity} {relays tried : List Text} {rest : Act ShortUrl}
    (h : At s t entity relays tried rest) (hcommitted : ∀ row ∈ t.committed, row ∈ t'.committed)
    (hown : ∀ row, (s, row) ∈ t.pending → Stands t' s row) : At s t' entity relays tried rest := by
  cases h with
  | asking h => exact .asking h
  | minting n hcount htaken => exact .minting n hcount fun code hcode => (htaken code hcode).mono hcommitted
  | inserting n code before htried hcount htaken =>
    exact .inserting n code before htried hcount fun code hcode => (htaken code hcode).mono hcommitted
  | settling n code before htried hcount htaken hclash =>
    obtain ⟨row, hrow, hclash⟩ := hclash
    exact .settling n code before htried hcount (fun code hcode => (htaken code hcode).mono hcommitted)
      ⟨row, hcommitted row hrow, hclash⟩
  | answered row hentity hstands =>
    exact .answered row hentity (hstands.elim (fun hrow => Or.inl (hcommitted row hrow)) (hown row))
  | cutOff => exact .cutOff

theorem clash_iff {row other : ShortUrl} :
    clash row other = true ↔ row.shortCode = other.shortCode ∨ row.entity = other.entity := by
  rw [clash, Bool.or_eq_true, decide_eq_true_eq, decide_eq_true_eq]

theorem clash_symm (row other : ShortUrl) : clash row other = clash other row := by
  rw [Bool.eq_iff_iff, clash_iff, clash_iff]
  exact or_congr eq_comm eq_comm

/-- The rows are all different, their codes are codes, and every answer is one of them. -/
structure Sound (st : System S) : Prop where
  apart : st.table.Apart clash
  alphabet : ∀ row ∈ st.table.rows, ∀ c ∈ row.shortCode, c ∈ shortCodeAlphabet
  tidy : ∀ s row, (s, row) ∈ st.table.pending → ∃ c, st.calls s = some c ∧ c.rest = .ret row
  calls : ∀ s c, st.calls s = some c → At s st.table c.entity c.relays c.tried c.rest

omit [DecidableEq S] in
theorem sound_initial : Sound (System.initial : System S) where
  apart := UniqueTable.apart_empty
  alphabet := fun row hrow => by cases hrow
  tidy := fun s row h => by cases h
  calls := fun s c h => by cases h

omit [DecidableEq S] in
/-- A request that has no answer has no row of its own. -/
theorem Sound.no_pending (h : Sound st) {c : Call} (hcall : st.calls s = some c) (hrest : answered c.rest = false) :
    ∀ row, (s, row) ∉ st.table.pending := by
  intro row hrow
  obtain ⟨c', hc', hret⟩ := h.tidy s row hrow
  rw [hcall] at hc'
  cases hc'
  rw [hret] at hrest
  cases hrest

/-- So it reads the committed rows. -/
theorem Sound.mem_visible (h : Sound st) {c : Call} (hcall : st.calls s = some c) (hrest : answered c.rest = false) :
    row ∈ st.table.visible s ↔ row ∈ st.table.committed := by
  rw [UniqueTable.visible, List.mem_append, UniqueTable.mem_own]
  exact or_iff_left (h.no_pending hcall hrest row)

/-- A request goes on with the table as it is. -/
theorem Sound.goOn (h : Sound st) {c : Call} (hfree : ∀ row, (s, row) ∉ st.table.pending)
    (hat : At s st.table c.entity c.relays c.tried c.rest) : Sound (st.goOn s st.table c) where
  apart := h.apart
  alphabet := h.alphabet
  tidy := by
    intro s' row hrow
    have hs : s' ≠ s := by
      rintro rfl
      exact hfree row hrow
    obtain ⟨c', hc', hrest⟩ := h.tidy s' row hrow
    exact ⟨c', (Function.update_of_ne hs _ _).trans hc', hrest⟩
  calls := by
    intro s' c' hc'
    by_cases hs : s' = s
    · subst hs
      simp only [System.goOn, Function.update_self, Option.some.injEq] at hc'
      subst hc'
      exact hat
    · simp only [System.goOn, Function.update_of_ne hs] at hc'
      exact h.calls s' c' hc'

/-- A request ends, and its rows are committed or gone. -/
theorem Sound.endTx (h : Sound st) {c : Call} {table : Table S} (happart : table.Apart clash)
    (hpending : table.pending = st.table.pending.filter (·.1 ≠ s))
    (hcommitted : ∀ row ∈ st.table.committed, row ∈ table.committed)
    (hrows : ∀ row ∈ table.rows, row ∈ st.table.rows)
    (hat : At s table c.entity c.relays c.tried c.rest) : Sound (st.goOn s table c) where
  apart := happart
  alphabet := fun row hrow => h.alphabet row (hrows row hrow)
  tidy := by
    intro s' row hrow
    simp only [System.goOn, hpending, List.mem_filter, decide_eq_true_eq] at hrow
    obtain ⟨c', hc', hrest⟩ := h.tidy s' row hrow.1
    exact ⟨c', (Function.update_of_ne hrow.2 _ _).trans hc', hrest⟩
  calls := by
    intro s' c' hc'
    by_cases hs : s' = s
    · subst hs
      simp only [System.goOn, Function.update_self, Option.some.injEq] at hc'
      subst hc'
      exact hat
    · simp only [System.goOn, Function.update_of_ne hs] at hc'
      refine (h.calls s' c' hc').mono hcommitted fun row hrow => Or.inr ?_
      show (s', row) ∈ table.pending
      rw [hpending, UniqueTable.mem_pending_of_ne hs]
      exact hrow

theorem Sound.commit (h : Sound st) {c : Call} (hcall : st.calls s = some c) :
    Sound (st.goOn s (st.table.commit s) { c with ended := true }) := by
  refine h.endTx (h.apart.commit clash_symm s) rfl (fun row hrow => ?_) (fun row hrow => ?_) ?_
  · exact UniqueTable.mem_commit.2 (Or.inl hrow)
  · exact (UniqueTable.rows_commit st.table s).mem_iff.1 hrow
  · refine (h.calls s c hcall).mono (fun row hrow => ?_) fun row hrow => Or.inl ?_
    · exact UniqueTable.mem_commit.2 (Or.inl hrow)
    · exact UniqueTable.mem_commit.2 (Or.inr hrow)

omit [DecidableEq S] in
theorem At.failed {entity : Entity} {relays tried : List Text} {rest : Act ShortUrl}
    (h : At s t entity relays tried rest) (t' : Table S)
    (hcommitted : ∀ row ∈ t.committed, row ∈ t'.committed) : At s t' entity relays tried (failed rest) := by
  cases h with
  | asking h => exact .cutOff
  | minting n hcount htaken =>
    cases n with
    | zero => exact .minting 0 hcount fun code hcode => (htaken code hcode).mono hcommitted
    | succ n => exact .cutOff
  | inserting n code before htried hcount htaken => exact .cutOff
  | settling n code before htried hcount htaken hclash => exact .cutOff
  | answered row hentity hstands => exact .cutOff
  | cutOff => exact .cutOff

theorem Sound.rollback (h : Sound st) {c : Call} (hcall : st.calls s = some c) :
    Sound (st.goOn s (st.table.rollback s) { c with rest := failed c.rest, ended := true }) := by
  refine h.endTx (h.apart.rollback s) rfl (fun row hrow => hrow) (fun row hrow => ?_) ?_
  · rcases UniqueTable.mem_rows.1 hrow with hrow | ⟨s', hrow⟩
    · exact UniqueTable.mem_rows.2 (Or.inl hrow)
    · exact UniqueTable.mem_rows.2 (Or.inr ⟨s', List.mem_of_mem_filter hrow⟩)
  · exact (h.calls s c hcall).failed _ fun row hrow => hrow

/-- A row is taken in. -/
theorem Sound.insert (h : Sound st) {c : Call} {code : ShortCode} (hcall : st.calls s = some c)
    (hrest : answered c.rest = false)
    (hinsert : st.table.insert clash s ⟨code.text, c.entity, c.relays⟩ = some (true, t')) :
    Sound (st.goOn s t' { c with rest := .ret ⟨code.text, c.entity, c.relays⟩ }) := by
  have hapart := h.apart.insert clash_symm hinsert
  rcases UniqueTable.insert_cases hinsert with ⟨hfalse, -⟩ | ⟨-, rfl, -⟩
  · cases hfalse
  refine ⟨hapart, fun row hrow => ?_, fun s' row hrow => ?_, fun s' c' hc' => ?_⟩
  · rcases UniqueTable.mem_rows.1 hrow with hrow | ⟨s', hrow⟩
    · exact h.alphabet row (UniqueTable.mem_rows.2 (Or.inl hrow))
    · rcases List.mem_cons.1 hrow with hnew | hrow
      · cases hnew
        exact code.mem_alphabet
      · exact h.alphabet row (UniqueTable.mem_rows.2 (Or.inr ⟨s', hrow⟩))
  · rcases List.mem_cons.1 hrow with hnew | hold
    · cases hnew
      exact ⟨_, Function.update_self _ _ _, rfl⟩
    · have hs : s' ≠ s := by
        rintro rfl
        exact h.no_pending hcall hrest row hold
      obtain ⟨c', hc', hret⟩ := h.tidy s' row hold
      exact ⟨c', (Function.update_of_ne hs _ _).trans hc', hret⟩
  · by_cases hs : s' = s
    · subst hs
      simp only [System.goOn, Function.update_self, Option.some.injEq] at hc'
      subst hc'
      exact .answered _ rfl (Or.inr List.mem_cons_self)
    · simp only [System.goOn, Function.update_of_ne hs] at hc'
      exact (h.calls s' c' hc').mono (fun row hrow => hrow) fun row hrow =>
        Or.inr (List.mem_cons_of_mem _ hrow)

/-- A request asks who was faster, and takes over the row or makes another code. -/
theorem Sound.settle (h : Sound st) {entity : Entity} {relays tried : List Text} {attempts : ℕ} {ended : Bool}
    {code : ShortCode} (hcall : st.calls s = some ⟨entity, relays, settling entity relays attempts, tried, ended⟩)
    (hminting : (∀ row ∈ st.table.committed, row.entity ≠ entity) →
      At s st.table entity relays tried (mint entity relays attempts))
    (hstep : st.command s code ⟨entity, relays, settling entity relays attempts, tried, ended⟩ = some st') :
    Sound st' := by
  have hcodes : (Cmd.selectByEntity entity).codes code = [] := rfl
  simp only [System.command, settling, exec, hcodes, List.append_nil, Option.map_some, Option.some.injEq] at hstep
  subst hstep
  refine h.goOn (h.no_pending hcall rfl) ?_
  cases hfind : (st.table.visible s).find? fun row => row.entity = entity with
  | some row =>
    have hmem := (h.mem_visible hcall rfl).1 (List.mem_of_find?_eq_some hfind)
    have hentity : row.entity = entity := by simpa using List.find?_some hfind
    exact .answered row hentity (Or.inl hmem)
  | none =>
    refine hminting fun row hrow hentity => ?_
    have hnone := List.find?_eq_none.1 hfind row ((h.mem_visible hcall rfl).2 hrow)
    exact hnone (decide_eq_true hentity)

theorem Sound.command (h : Sound st) {c : Call} {code : ShortCode} (hcall : st.calls s = some c)
    (hstep : st.command s code c = some st') : Sound st' := by
  have hat := h.calls s c hcall
  obtain ⟨entity, relays, rest, tried, ended⟩ := c
  dsimp only at hat
  cases hat with
  | asking htried =>
    subst htried
    exact h.settle hcall (fun _ => .minting _ rfl fun code hcode => by cases hcode) hstep
  | minting attempts hcount htaken =>
    cases attempts with
    | zero => cases hstep
    | succ attempts =>
      rw [mint_succ] at hcall hstep
      cases hstep
      refine h.goOn (h.no_pending hcall rfl) (.inserting attempts code tried rfl ?_ htaken)
      rw [List.length_append, ← hcount]
      exact Nat.succ_add_eq_add_succ _ _
  | inserting attempts code' before htried hcount htaken =>
    simp only [System.command, inserting, exec, Option.map_eq_some_iff] at hstep
    obtain ⟨⟨taken, t'⟩, hinsert, rfl⟩ := hstep
    have hcodes : (Cmd.insert ⟨code'.text, entity, relays⟩).codes code = [] := rfl
    rw [hcodes, List.append_nil]
    cases taken with
    | true => exact h.insert hcall rfl hinsert
    | false =>
      rcases UniqueTable.insert_cases hinsert with ⟨-, rfl, row, hrow, hclash⟩ | ⟨htrue, -⟩
      · refine h.goOn (h.no_pending hcall rfl) (.settling attempts code' before htried hcount htaken ⟨row, ?_, hclash⟩)
        exact (h.mem_visible hcall rfl).1 hrow
      · cases htrue
  | settling attempts code' before htried hcount htaken hclash =>
    refine h.settle hcall (fun hnone => .minting attempts hcount fun text htext => ?_) hstep
    rw [htried, List.mem_append, List.mem_singleton] at htext
    rcases htext with htext | rfl
    · exact htaken text htext
    · -- the row that was in the way has the code, as the entity has none
      obtain ⟨row, hrow, hclash⟩ := hclash
      rcases clash_iff.1 hclash with hcode | hentity
      · exact ⟨row, hrow, hcode.symm, hnone row hrow⟩
      · exact absurd hentity.symm (hnone row hrow)
  | answered row hentity hstands => cases hstep
  | cutOff => cases hstep

theorem Sound.step (h : Sound st) (hstep : step e st = some st') : Sound st' := by
  cases e with
  | request s entity relays =>
    simp only [Links.step] at hstep
    split_ifs at hstep with hsome
    cases hstep
    have hnew := Option.not_isSome_iff_eq_none.1 hsome
    refine h.goOn (fun row hrow => ?_) ?_
    · obtain ⟨c, hc, -⟩ := h.tidy s row hrow
      rw [hnew] at hc
      cases hc
    · dsimp only
      rw [createShortUrl_eq]
      exact .asking rfl
  | command s code =>
    obtain ⟨c, hcall, hstep⟩ := Option.bind_eq_some_iff.1 hstep
    exact h.command hcall hstep
  | commit s =>
    obtain ⟨c, hcall, hstep⟩ := Option.bind_eq_some_iff.1 hstep
    split_ifs at hstep
    cases hstep
    exact h.commit hcall
  | rollback s =>
    obtain ⟨c, hcall, hstep⟩ := Option.bind_eq_some_iff.1 hstep
    split_ifs at hstep
    cases hstep
    exact h.rollback hcall

theorem Sound.run (h : Sound st) {es : List (Event S)} (hrun : Machine.run Links.step es st = some st') : Sound st' :=
  Machine.run_inv (I := Sound) (P := fun _ => True) (fun _ h hstep => h.step hstep) (fun _ _ => trivial) h hrun

/-- A link that is committed stays. -/
theorem committed_step (hstep : step e st = some st') (hrow : row ∈ st.table.committed) :
    row ∈ st'.table.committed := by
  cases e with
  | request s entity relays =>
    simp only [step] at hstep
    split_ifs at hstep
    cases hstep
    exact hrow
  | command s code =>
    obtain ⟨c, -, hstep⟩ := Option.bind_eq_some_iff.1 hstep
    cases hrest : c.rest with
    | ret a => simp only [System.command, hrest, reduceCtorEq] at hstep
    | raise e => simp only [System.command, hrest, reduceCtorEq] at hstep
    | op cmd k =>
      simp only [System.command, hrest, Option.map_eq_some_iff] at hstep
      obtain ⟨⟨a, t'⟩, hexec, rfl⟩ := hstep
      cases cmd with
      | generateShortCode =>
        cases hexec
        exact hrow
      | selectByEntity entity =>
        cases hexec
        exact hrow
      | insert new =>
        rcases UniqueTable.insert_cases hexec with ⟨-, rfl, -⟩ | ⟨-, rfl, -⟩
        · exact hrow
        · exact hrow
  | commit s =>
    obtain ⟨c, -, hstep⟩ := Option.bind_eq_some_iff.1 hstep
    split_ifs at hstep
    cases hstep
    exact UniqueTable.mem_commit.2 (Or.inl hrow)
  | rollback s =>
    obtain ⟨c, -, hstep⟩ := Option.bind_eq_some_iff.1 hstep
    split_ifs at hstep
    cases hstep
    exact hrow

theorem committed_run {es : List (Event S)} (hrun : Machine.run step es st = some st')
    (hrow : row ∈ st.table.committed) : row ∈ st'.table.committed :=
  Machine.run_inv (I := fun st => row ∈ st.table.committed) (P := fun _ => True)
    (fun _ hI hstep => committed_step hstep hI) (fun _ _ => trivial) hrow hrun

omit [DecidableEq S] in
/-- An answer is a row of the entity that was asked for. -/
theorem Sound.answer (h : Sound st) {c : Call} (hcall : st.calls s = some c) (hrest : c.rest = .ret row) :
    row.entity = c.entity ∧ Stands st.table s row := by
  have hat := h.calls s c hcall
  generalize c.rest = rest at hat hrest
  cases hat with
  | asking htried => cases hrest
  | minting attempts hcount htaken =>
    cases attempts with
    | zero => cases hrest
    | succ attempts =>
      rw [mint_succ] at hrest
      cases hrest
  | inserting attempts code before htried hcount htaken => cases hrest
  | settling attempts code before htried hcount htaken hclash => cases hrest
  | answered row' hentity hstands =>
    cases hrest
    exact ⟨hentity, hstands⟩
  | cutOff => cases hrest

omit [DecidableEq S] in
/-- Whoever typed something that looks like a code is told its row, and nobody else is. -/
theorem Sound.getShortUrl_iff (h : Sound st) (hrow : row ∈ st.table.committed) {raw : Text}
    (hraw : pathPattern raw = true) : getShortUrl st.table raw = .ok row ↔ Reads raw row.shortCode := by
  have halphanum : ∀ c ∈ raw, c.isAlphanum = true := by
    simp only [pathPattern, Bool.and_eq_true] at hraw
    exact List.all_eq_true.1 hraw.1.1
  have halphabet := h.alphabet row (UniqueTable.mem_rows.2 (Or.inl hrow))
  rw [← normalizeShortCode_eq_iff halphanum halphabet, getShortUrl, if_pos hraw]
  constructor
  · intro hfound
    split at hfound
    · rename_i found hfind
      cases hfound
      have hcode : row.shortCode = normalizeShortCode raw := by simpa using List.find?_some hfind
      exact hcode.symm
    · cases hfound
  · intro hcode
    split
    · rename_i found hfind
      have hfound := UniqueTable.mem_rows.2 (Or.inl (List.mem_of_find?_eq_some hfind))
      have hsame : found.shortCode = normalizeShortCode raw := by simpa using List.find?_some hfind
      rw [hcode] at hsame
      rw [h.apart.eq_of_clash clash_symm hfound (UniqueTable.mem_rows.2 (Or.inl hrow)) (clash_iff.2 (Or.inl hsame))]
    · rename_i hnone
      exact absurd (decide_eq_true hcode.symm) (List.find?_eq_none.1 hnone row hrow)

/-- **A link works for ever.**  Once a request is answered and its transaction committed, the code
    resolves to the entity that was asked for, however it is spelled, and every request for the
    entity that is answered is given this row.  However the requests interleave, and whichever
    are rolled back. -/
theorem minted_for_good {es₁ es₂ : List (Event S)} {st₀ st₁ st₂ : System S} {c : Call}
    (h₁ : Machine.run step es₁ .initial = some st₀) (hcall : st₀.calls s = some c) (hrest : c.rest = .ret row)
    (hcommit : step (.commit s) st₀ = some st₁) (h₂ : Machine.run step es₂ st₁ = some st₂) :
    row.entity = c.entity ∧
    (∀ raw, pathPattern raw = true → (getShortUrl st₂.table raw = .ok row ↔ Reads raw row.shortCode)) ∧
    ∀ s' c' row', st₂.calls s' = some c' → c'.rest = .ret row' → c'.entity = row.entity → row' = row := by
  have hsound₀ := sound_initial.run h₁
  have hsound₂ := (hsound₀.step hcommit).run h₂
  obtain ⟨hentity, hstands⟩ := hsound₀.answer hcall hrest
  have hrow : row ∈ st₂.table.committed := by
    refine committed_run h₂ ?_
    obtain ⟨c', -, hstep⟩ := Option.bind_eq_some_iff.1 hcommit
    split_ifs at hstep
    cases hstep
    exact UniqueTable.mem_commit.2 hstands
  refine ⟨hentity, fun raw hraw => hsound₂.getShortUrl_iff hrow hraw, fun s' c' row' hcall' hrest' hasked => ?_⟩
  obtain ⟨hentity', hstands'⟩ := hsound₂.answer hcall' hrest'
  refine hsound₂.apart.eq_of_clash clash_symm ?_ (UniqueTable.mem_rows.2 (Or.inl hrow))
    (clash_iff.2 (Or.inr (hentity'.trans hasked)))
  exact UniqueTable.mem_rows.2 (hstands'.imp id fun hpending => ⟨s', hpending⟩)

theorem mem_of_all {text : Text} (h : text.all (fun c => decide (c ∈ shortCodeAlphabet)) = true) :
    ∀ c ∈ text, c ∈ shortCodeAlphabet :=
  fun c hc => of_decide_eq_true (List.all_eq_true.1 h c hc)

/-- A code that one request makes, and one that another makes. -/
def firstCode : ShortCode := ⟨"MBD5M41Y".toList, rfl, mem_of_all rfl⟩

def otherCode : ShortCode := ⟨"7YJR9PD6".toList, rfl, mem_of_all rfl⟩

/-- Two requests for one entity, both before it has a code. -/
def raced : List (Event ℕ) :=
  [.request 0 ⟨.hashtag, "nostr".toList⟩ [], .request 1 ⟨.hashtag, "nostr".toList⟩ [], .command 0 firstCode,
    .command 1 otherCode, .command 0 firstCode, .command 1 otherCode, .command 0 firstCode]

/-- The one that is slower is given the code of the faster, and a text that looks like it finds it. -/
theorem raced_one_code : ∃ (st₀ st₁ st₂ : System ℕ) (c c' : Call) (row row' : ShortUrl),
    Machine.run step raced .initial = some st₀ ∧ st₀.calls 0 = some c ∧ c.rest = .ret row ∧
    step (.commit 0) st₀ = some st₁ ∧ Machine.run step [.command 1 otherCode, .command 1 otherCode] st₁ = some st₂ ∧
    st₂.calls 1 = some c' ∧ c'.rest = .ret row' ∧ row' = row ∧
    (getShortUrl st₂.table "mbd5m4Ly".toList = .ok row ↔ Reads "mbd5m4Ly".toList row.shortCode) := by
  have hruns : ∃ (st₀ st₁ st₂ : System ℕ) (c c' : Call) (row row' : ShortUrl),
      Machine.run step raced .initial = some st₀ ∧ st₀.calls 0 = some c ∧ c.rest = .ret row ∧
      step (.commit 0) st₀ = some st₁ ∧ Machine.run step [.command 1 otherCode, .command 1 otherCode] st₁ = some st₂ ∧
      st₂.calls 1 = some c' ∧ c'.rest = .ret row' ∧ c'.entity = row.entity :=
    ⟨_, _, _, _, _, _, _, rfl, rfl, rfl, rfl, rfl, rfl, rfl, rfl⟩
  obtain ⟨st₀, st₁, st₂, c, c', row, row', h₁, hcall, hrest, hcommit, h₂, hcall', hrest', hasked⟩ := hruns
  obtain ⟨-, hresolves, hsame⟩ := minted_for_good h₁ hcall hrest hcommit h₂
  exact ⟨st₀, st₁, st₂, c, c', row, row', h₁, hcall, hrest, hcommit, h₂, hcall', hrest',
    hsame 1 c' row' hcall' hrest' hasked, hresolves _ (by decide)⟩

/-- **A request gives up only over codes that are taken.**  All of its five codes stand in the
    table for other entities; that another request was faster is no reason. -/
theorem exhausted_only_if_taken {es : List (Event S)} {c : Call} (hrun : Machine.run step es .initial = some st)
    (hcall : st.calls s = some c) (hrest : c.rest = .raise .exhausted) :
    c.tried.length = maxGenerationAttempts ∧
    ∀ code ∈ c.tried, ∃ row ∈ st.table.committed, row.shortCode = code ∧ row.entity ≠ c.entity := by
  have hat := (sound_initial.run hrun).calls s c hcall
  generalize c.rest = rest at hat hrest
  cases hat with
  | asking htried => cases hrest
  | minting attempts hcount htaken =>
    cases attempts with
    | zero => exact ⟨hcount, htaken⟩
    | succ attempts =>
      rw [mint_succ] at hrest
      cases hrest
  | inserting attempts code before htried hcount htaken => cases hrest
  | settling attempts code before htried hcount htaken hclash => cases hrest
  | answered row' hentity hstands => cases hrest
  | cutOff => cases hrest

/-- An entity has a code, and a request for another one makes the same code five times. -/
def unlucky : List (Event ℕ) :=
  ([.request 0 ⟨.hashtag, "nostr".toList⟩ [], .command 0 firstCode, .command 0 firstCode, .command 0 firstCode,
    .commit 0, .request 1 ⟨.hashtag, "bitcoin".toList⟩ [], .command 1 firstCode] : List (Event ℕ)) ++
  List.replicate 15 (.command 1 firstCode)

theorem unlucky_exhausted : ∃ (st : System ℕ) (c : Call), Machine.run step unlucky .initial = some st ∧
    st.calls 1 = some c ∧ c.rest = .raise .exhausted ∧ c.tried.length = 5 := by
  have hrun : ∃ (st : System ℕ) (c : Call), Machine.run step unlucky .initial = some st ∧
      st.calls 1 = some c ∧ c.rest = .raise .exhausted := ⟨_, _, rfl, rfl, rfl⟩
  obtain ⟨st, c, hrun, hcall, hrest⟩ := hrun
  exact ⟨st, c, hrun, hcall, hrest, (exhausted_only_if_taken hrun hcall hrest).1⟩

end

end Links

end BrainstormServer
