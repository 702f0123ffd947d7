/-
  Whether a rotation that fails loses a secret.

  The table carries the secrets under a list of keys (`Carries`): the row of
  each user decrypts to that user's secret.  Wherever `rotate_key` or
  `bootstrap_keys` may stop, the table carries the secrets under the keys of
  the file, if the rotation started where its first loaded key alone opens
  every row (`rotateKey_keeps`).

  * A whole run of rotations, failures, crashes and restarts keeps every secret
    if each rotation starts in such a state, or refuses to go on
    (`rotations_keep_secrets`);
  * but a failed rotation leaves a file with two keys and the rows under the
    second one.  The next rotation takes only the first for old and drops the
    second (`retried_rotation_strands`).
-/
import BrainstormServer.Nsec.Rotation

namespace BrainstormServer

namespace Nsec

open Conc Prog

variable {S Key : Type} {F : Fernet Key} {s : S}

/-! ## The commands of a program that keeps an invariant -/

section
variable [DecidableEq S] {I : Server S Key → Prop} {st : Server S Key}

theorem keeps_await {c : Cmd Key} {Q : c.Val → Server S Key → Prop} (hI : I st)
    (h : ∀ (ω : Outside F) v st', effect s c st ω = some (v, st') → Q v st' ∧ I st') :
    (await c).Keeps (exec (F := F)) s I Q st := by
  refine keeps_op hI fun ω r hr => ?_
  unfold exec at hr
  cases hf : ω.fault with
  | none =>
    simp only [hf, Option.map_eq_some_iff] at hr
    obtain ⟨⟨v, st'⟩, he, rfl⟩ := hr
    exact keeps_ret (h ω v st' he).1
  | some fault =>
    cases fault with
    | before e =>
      simp only [hf, Option.some.injEq] at hr
      subst hr
      exact keeps_raise hI
    | after e =>
      simp only [hf, Option.map_eq_some_iff] at hr
      obtain ⟨⟨v, st'⟩, he, rfl⟩ := hr
      exact keeps_raise (h ω v st' he).2

/-- A command that changes nothing. -/
theorem keeps_read {c : Cmd Key} {Q : c.Val → Server S Key → Prop} (hI : I st)
    (h : ∀ (ω : Outside F) v st', effect s c st ω = some (v, st') → st' = st ∧ Q v st) :
    (await c).Keeps (exec (F := F)) s I Q st := by
  refine keeps_await hI fun ω v st' he => ?_
  obtain ⟨rfl, hq⟩ := h ω v st' he
  exact ⟨hq, hI⟩

/-- A session of the database: what its body leaves is committed, and a failure
    anywhere rolls back to a state the crash condition allows. -/
theorem keeps_dbSession {α : Type} {body : Act Key α} {Q : α → Server S Key → Prop}
    (hend : ∀ st', I st' → I (st'.endTx s))
    (h : body.Keeps (exec (F := F)) s I (fun a st' =>
      I st' ∧ I (st'.commitTx s) ∧ Q a ((st'.commitTx s).endTx s)) st) :
    (dbSession body).Keeps (exec (F := F)) s I Q st := by
  have hclose : ∀ st', I st' → (await .close).Keeps (exec (F := F)) s I (fun _ => I) st' := by
    intro st' hI
    refine keeps_await hI fun ω v st'' he => ?_
    cases he
    exact ⟨hend st' hI, hend st' hI⟩
  refine keeps_tryFinally (keeps_tryCatch (keeps_bind (h.mono ?_)) ?_) hclose
  · rintro a st' ⟨hI, hcommit, hq⟩
    refine keeps_bind (keeps_await hI fun ω v st'' he => ?_)
    cases he
    refine ⟨keeps_ret (keeps_await hcommit fun ω' v' st'' he => ?_), hcommit⟩
    cases he
    exact ⟨hq, hend _ hcommit⟩
  · intro e st' hI
    split_ifs
    · refine keeps_bind (keeps_await hI fun ω v st'' he => ?_)
      cases he
      exact ⟨keeps_raise (hend st' hI), hend st' hI⟩
    · exact keeps_raise hI

end

/-! ## Secrets -/

/-- The token in the row of `p`. -/
def token (rows : Pubkey → Option Row) (p : Pubkey) : Option Text :=
  (rows p).bind (·.encryptedNsec)

variable (F) in
/-- The row of `p` decrypts to the secret of `p`; without one it holds no token. -/
def Carries (keys : List Text) (secrets : Pubkey → Option Text) (rows : Pubkey → Option Row)
    (p : Pubkey) : Prop :=
  (token rows p).map (F.opens keys) = (secrets p).map some

theorem carries_iff {keys : List Text} {secrets : Pubkey → Option Text}
    {rows : Pubkey → Option Row} {p : Pubkey} : Carries F keys secrets rows p ↔
      (token rows p = none ∧ secrets p = none) ∨
        ∃ t m, token rows p = some t ∧ secrets p = some m ∧ F.opens keys t = some m := by
  unfold Carries
  cases token rows p with
  | none => cases secrets p <;> simp
  | some t => cases secrets p <;> simp

/-- Rows that decrypt under some keys carry the same secrets under any others
    under which they decrypt. -/
theorem Carries.of_opens {keys keys' : List Text} {secrets : Pubkey → Option Text}
    {rows : Pubkey → Option Row} {p : Pubkey} (h : Carries F keys secrets rows p)
    (hall : ∀ t, token rows p = some t → (F.opens keys' t).isSome) :
    Carries F keys' secrets rows p := by
  rcases carries_iff.1 h with h | ⟨t, m, ht, hm, hopen⟩
  · exact carries_iff.2 (Or.inl h)
  · obtain ⟨m', hm'⟩ := Option.isSome_iff_exists.1 (hall t ht)
    refine carries_iff.2 (Or.inr ⟨t, m, ht, hm, ?_⟩)
    rw [hm', Fernet.opens_unique hopen hm']

theorem Carries.more_keys {keys keys' : List Text} {secrets : Pubkey → Option Text}
    {rows : Pubkey → Option Row} {p : Pubkey} (h : Carries F keys secrets rows p)
    (hsub : keys ⊆ keys') (hall : ∀ k ∈ keys', (F.ofText k).isSome) :
    Carries F keys' secrets rows p := by
  rcases carries_iff.1 h with h | ⟨t, m, ht, hm, hopen⟩
  · exact carries_iff.2 (Or.inl h)
  · exact carries_iff.2 (Or.inr ⟨t, m, ht, hm, Fernet.opens_mono hopen hsub hall⟩)

variable (F) in
/-- The crash condition: the table carries the secrets under the keys of the
    file, a scan meets every row, and the loaded keys came from a file. -/
structure Intact (secrets : Pubkey → Option Text) (st : Server S Key) : Prop where
  carries : ∀ p, Carries F st.fileKeys secrets st.table.committed p
  complete : ∀ p, st.table.committed p ≠ none → p ∈ st.pubkeys
  texts : ∀ k ∈ st.keys, IsKeyText k

theorem Intact.endTx [DecidableEq S] {secrets : Pubkey → Option Text} {st : Server S Key}
    (h : Intact F secrets st) : Intact F secrets (st.endTx s) := ⟨h.carries, h.complete, h.texts⟩

theorem Intact.exit [DecidableEq S] {secrets : Pubkey → Option Text} {st : Server S Key}
    (h : Intact F secrets st) : Intact F secrets (st.exit s) :=
  ⟨h.carries, h.complete, fun _ hk => nomatch hk⟩

/-! ## The states of a rotation -/

variable (F s) in
/-- No transaction is open, the file holds the keys `file`, and the table
    carries the secrets under the keys `under`. -/
structure Settled (file under : List Text) (secrets : Pubkey → Option Text)
    (st : Server S Key) : Prop where
  fileKeys : st.fileKeys = file
  carries : ∀ p, Carries F under secrets st.table.committed p
  complete : ∀ p, st.table.committed p ≠ none → p ∈ st.pubkeys
  texts : ∀ k ∈ st.keys, IsKeyText k
  idle : st.table.view s = st.table.committed

section
variable {file under : List Text} {secrets : Pubkey → Option Text} {st : Server S Key}

theorem Intact.settled (h : Intact F secrets st) (hidle : st.table.view s = st.table.committed) :
    Settled F s st.fileKeys st.fileKeys secrets st :=
  ⟨rfl, h.carries, h.complete, h.texts, hidle⟩

theorem Settled.intact (h : Settled F s file under secrets st) (hsub : under ⊆ file)
    (hall : ∀ k ∈ file, (F.ofText k).isSome) : Intact F secrets st where
  carries p := by
    rw [h.fileKeys]
    exact (h.carries p).more_keys hsub hall
  complete := h.complete
  texts := h.texts

theorem Settled.commitTx [DecidableEq S] (h : Settled F s file under secrets st) :
    Settled F s file under secrets (st.commitTx s) where
  fileKeys := h.fileKeys
  carries p := by
    change Carries F under secrets (st.table.view s) p
    rw [h.idle]
    exact h.carries p
  complete p hp := by
    change st.table.view s p ≠ none at hp
    rw [h.idle] at hp
    exact h.complete p hp
  texts := h.texts
  idle := TxTable.view_commit_self _ _

theorem Settled.endTx [DecidableEq S] (h : Settled F s file under secrets st) :
    Settled F s file under secrets (st.endTx s) :=
  ⟨h.fileKeys, h.carries, h.complete, h.texts, TxTable.view_rollback_self _ _⟩

/-- The file is replaced. -/
theorem Settled.replaceFile {keys : List Text} (h : Settled F s file under secrets st)
    (hkeys : ∀ k ∈ keys, IsKeyText k) :
    Settled F s keys under secrets { st with file := some (joinKeys keys) } :=
  ⟨readKeys_joinKeys hkeys, h.carries, h.complete, h.texts, h.idle⟩

/-- The keys of the file are loaded. -/
theorem Settled.load (h : Settled F s file under secrets st) (mf : Option (MultiFernet Key)) :
    Settled F s file under secrets { st with keys := st.fileKeys, mf := mf } :=
  ⟨h.fileKeys, h.carries, h.complete, fun _ hk => isKeyText_of_mem_readKeys hk, h.idle⟩

theorem mem_encrypted {p : Pubkey} {t : Text} :
    (p, t) ∈ st.encrypted s ↔ p ∈ st.pubkeys ∧ token (st.table.view s) p = some t := by
  unfold Server.encrypted Server.rows token
  simp only [List.mem_filterMap, Option.map_eq_some_iff, Prod.mk.injEq]
  constructor
  · rintro ⟨-, ⟨q, hq, row, hrow, rfl⟩, tok, htok, rfl, rfl⟩
    exact ⟨hq, by rw [hrow]; exact htok⟩
  · rintro ⟨hp, ht⟩
    obtain ⟨row, hrow, htok⟩ := Option.bind_eq_some_iff.1 ht
    exact ⟨_, ⟨p, hp, row, hrow, rfl⟩, t, htok, rfl, rfl⟩

/-- Without an open transaction a scan finds every token. -/
theorem Settled.mem_encrypted (h : Settled F s file under secrets st) {p : Pubkey} {t : Text} :
    (p, t) ∈ st.encrypted s ↔ token st.table.committed p = some t := by
  rw [Nsec.mem_encrypted, h.idle]
  refine and_iff_right_of_imp fun ht => h.complete p fun hp => ?_
  simp [token, hp] at ht

end

/-! ## The functions -/

section
variable [DecidableEq S] {I : Server S Key → Prop} {st : Server S Key}

theorem keeps_makeMultiFernet {keys : List Text} {Q : MultiFernet Key → Server S Key → Prop}
    (hI : I st) (h : ∀ mf, F.multiFernet keys = some mf → Q mf st) :
    (makeMultiFernet F keys).Keeps (exec (F := F)) s I Q st := by
  unfold makeMultiFernet
  split
  · rename_i mf hmf
    exact keeps_ret (h mf hmf)
  · exact keeps_raise hI

theorem keeps_loadKeysFromFile {Q : ℕ → Server S Key → Prop} (hI : I st)
    (hset : ∀ mf, I { st with keys := st.fileKeys, mf := mf })
    (hQ : ∀ mf, Q st.fileKeys.length { st with keys := st.fileKeys, mf := mf }) :
    (loadKeysFromFile F).Keeps (exec (F := F)) s I Q st := by
  have hkeys : I { st with keys := st.fileKeys } := hset st.mf
  have hmf : ∀ mf : Option (MultiFernet Key), (await (.setMf mf)).Keeps (exec (F := F)) s I
      (fun _ => Q st.fileKeys.length) { st with keys := st.fileKeys } := by
    intro mf
    refine keeps_await hkeys fun ω v st' he => ?_
    cases he
    exact ⟨hQ mf, hset mf⟩
  refine keeps_bind (keeps_read hI fun ω v st' he => ?_)
  cases he
  refine ⟨rfl, keeps_bind (keeps_await hI fun ω v st' he => ?_)⟩
  cases he
  refine ⟨?_, hkeys⟩
  split_ifs
  · exact keeps_bind ((hmf none).mono fun _ _ h => h)
  · refine keeps_bind (keeps_makeMultiFernet hkeys fun mf _ => ?_)
    exact keeps_bind ((hmf (some mf)).mono fun _ _ h => h)

variable {file under : List Text} {secrets : Pubkey → Option Text}

/-- `_verify_with` leaves everything as it is, and without a failure every row decrypts. -/
theorem keeps_verifyWith {mf : MultiFernet Key} (hend : ∀ st', I st' → I (st'.endTx s))
    (hI : ∀ st', Settled F s file under secrets st' → I st')
    (h : Settled F s file under secrets st) :
    (verifyWith F mf).Keeps (exec (F := F)) s I (fun r st' =>
      Settled F s file under secrets st' ∧ st'.table.committed = st.table.committed ∧
        (r.fail = 0 → ∀ p t, token st.table.committed p = some t →
          (F.decryptMulti mf t).isSome)) st := by
  refine keeps_bind (keeps_dbSession hend (keeps_read (hI st h) fun ω v st' he => ?_))
  cases he
  refine ⟨rfl, hI st h, hI _ h.commitTx, keeps_ret ⟨h.commitTx.endTx, h.idle, ?_⟩⟩
  intro hfail p t ht
  have hnone := List.countP_eq_zero.1 hfail (p, t) (h.mem_encrypted.2 ht)
  simpa [Option.isSome_iff_ne_none] using hnone

/-! ### The loop of the re-encryption -/

variable (F s) in
/-- Inside `_reencrypt_all`, with the rows `rest` to go: those done are under the
    new key alone, the others still under one of the two. -/
structure Midway (new old : Text) (secrets : Pubkey → Option Text) (rest : List (Pubkey × Text))
    (st : Server S Key) : Prop where
  fileKeys : st.fileKeys = [new, old]
  carries : ∀ p, Carries F [new, old] secrets st.table.committed p
  complete : ∀ p, st.table.committed p ≠ none → p ∈ st.pubkeys
  texts : ∀ k ∈ st.keys, IsKeyText k
  viewed : ∀ p, Carries F [new, old] secrets (st.table.view s) p
  scanned : ∀ p, st.table.view s p ≠ none → p ∈ st.pubkeys
  done : ∀ p, p ∉ rest.map (·.1) → Carries F [new] secrets (st.table.view s) p
  rest : ∀ r ∈ rest, (secrets r.1).isSome ∧ F.opens [new, old] r.2 = secrets r.1

variable {new old : Text} {rest : List (Pubkey × Text)}

omit [DecidableEq S] in
theorem Midway.intact (h : Midway F s new old secrets rest st) : Intact F secrets st where
  carries p := by
    rw [h.fileKeys]
    exact h.carries p
  complete := h.complete
  texts := h.texts

/-- The next row is written, with a token the new key opens to its secret. -/
theorem Midway.next {p : Pubkey} {t t' : Text} {T : TxTable S Pubkey Row}
    (h : Midway F s new old secrets ((p, t) :: rest) st) (hall : ∀ k ∈ [new, old], (F.ofText k).isSome)
    (hT : st.table.modify s p (fun row => { row with encryptedNsec := some t' }) = some T)
    (ht' : F.opens [new] t' = secrets p) :
    Midway F s new old secrets rest { st with table := T } := by
  have hcommitted : T.committed = st.table.committed := by
    rcases TxTable.modify_cases hT with ⟨-, rfl⟩ | ⟨row, -, -, rfl⟩
    · rfl
    · rfl
  have hview := TxTable.modify_view hT
  obtain ⟨hsome, -⟩ := h.rest (p, t) List.mem_cons_self
  obtain ⟨m, hm⟩ := Option.isSome_iff_exists.1 hsome
  -- the row is there, since it carries a secret
  obtain ⟨row, hrow⟩ : ∃ row, st.table.view s p = some row := by
    rcases carries_iff.1 (h.viewed p) with ⟨-, hnone⟩ | ⟨u, m', hu, -, -⟩
    · simp [hm] at hnone
    · obtain ⟨row, hrow, -⟩ := Option.bind_eq_some_iff.1 hu
      exact ⟨row, hrow⟩
  have hnew : Carries F [new] secrets (T.view s) p := by
    refine carries_iff.2 (Or.inr ⟨t', m, ?_, hm, by rw [ht', hm]⟩)
    unfold token
    rw [hview, Function.update_self, hrow]
    rfl
  have hother : ∀ {keys : List Text} {q : Pubkey}, q ≠ p →
      Carries F keys secrets (st.table.view s) q → Carries F keys secrets (T.view s) q := by
    intro keys q hq hc
    unfold Carries token
    rw [hview, Function.update_of_ne hq]
    exact hc
  refine ⟨h.fileKeys, ?_, ?_, h.texts, ?_, ?_, ?_, fun r hr => h.rest r (List.mem_cons_of_mem _ hr)⟩
  · intro q
    change Carries F [new, old] secrets T.committed q
    rw [hcommitted]
    exact h.carries q
  · intro q hq
    change T.committed q ≠ none at hq
    rw [hcommitted] at hq
    exact h.complete q hq
  · intro q
    by_cases hq : q = p
    · rw [hq]
      exact hnew.more_keys (by simp) hall
    · exact hother hq (h.viewed q)
  · intro q hq
    change T.view s q ≠ none at hq
    rw [hview] at hq
    by_cases hqp : q = p
    · exact hqp ▸ h.scanned p (by rw [hrow]; exact Option.some_ne_none _)
    · rw [Function.update_of_ne hqp] at hq
      exact h.scanned q hq
  · intro q hq
    by_cases hqp : q = p
    · rw [hqp]
      exact hnew
    · refine hother hqp (h.done q ?_)
      simp [hqp, hq]

theorem keeps_reencryptRows {mf : MultiFernet Key} (hmf : F.multiFernet [new, old] = some mf)
    (hall : ∀ k ∈ [new, old], (F.ofText k).isSome) : ∀ {rest : List (Pubkey × Text)} {st : Server S Key},
    Midway F s new old secrets rest st → (reencryptRows F mf rest).Keeps (exec (F := F)) s
      (Intact F secrets) (fun _ st' => Midway F s new old secrets [] st') st := by
  intro rest
  induction rest with
  | nil => exact fun h => keeps_ret h
  | cons r rest ih =>
    obtain ⟨p, t⟩ := r
    intro st h
    obtain ⟨-, hopen⟩ := h.rest (p, t) List.mem_cons_self
    unfold reencryptRows
    cases hm : F.decryptMulti mf t with
    | none => exact keeps_raise h.intact
    | some m =>
      have hsecret : secrets p = some m := by
        rw [← hopen]
        exact Option.bind_eq_some_iff.2 ⟨mf, hmf, hm⟩
      refine keeps_bind (keeps_read h.intact fun ω r st' he => ?_)
      cases he
      refine ⟨rfl, keeps_bind (keeps_await h.intact fun ω v st' he => ?_)⟩
      obtain ⟨T, hT, hst⟩ := Option.map_eq_some_iff.1 he
      cases hst
      have hnext := h.next hall hT (by rw [Fernet.opens_encryptMulti hmf, hsecret])
      exact ⟨keeps_bind ((ih hnext).mono fun n st' h' => keeps_ret h'), hnext.intact⟩

/-- `_reencrypt_all` moves every row under the new key. -/
theorem keeps_reencryptAll {mf : MultiFernet Key} (hmf : F.multiFernet [new, old] = some mf)
    (hall : ∀ k ∈ [new, old], (F.ofText k).isSome)
    (h : Settled F s [new, old] [old] secrets st) :
    (reencryptAll F mf).Keeps (exec (F := F)) s (Intact F secrets)
      (fun _ st' => Settled F s [new, old] [new] secrets st') st := by
  have hI : Intact F secrets st := h.intact (by simp) hall
  have hboth : ∀ p, Carries F [new, old] secrets st.table.committed p :=
    fun p => (h.carries p).more_keys (by simp) hall
  have hmid : Midway F s new old secrets (st.encrypted s) st := by
    refine ⟨h.fileKeys, hboth, h.complete, h.texts, ?_, ?_, ?_, ?_⟩
    · rw [h.idle]
      exact hboth
    · rw [h.idle]
      exact h.complete
    · intro p hp
      rw [h.idle]
      rcases carries_iff.1 (hboth p) with hnone | ⟨t, m, ht, -, -⟩
      · exact carries_iff.2 (Or.inl hnone)
      · exact absurd (List.mem_map.2 ⟨(p, t), h.mem_encrypted.2 ht, rfl⟩) hp
    · rintro ⟨p, t⟩ hr
      rcases carries_iff.1 (hboth p) with ⟨hnone, -⟩ | ⟨t', m, ht', hm, hopen⟩
      · rw [h.mem_encrypted.1 hr] at hnone
        cases hnone
      · rw [h.mem_encrypted.1 hr] at ht'
        cases ht'
        exact ⟨by rw [hm]; rfl, by rw [hm]; exact hopen⟩
  refine keeps_dbSession (fun st' h' => h'.endTx) (keeps_bind (keeps_read hI fun ω v st' he => ?_))
  cases he
  refine ⟨rfl, (keeps_reencryptRows hmf hall hmid).mono fun _ st' h' => ?_⟩
  have hnew : Settled F s [new, old] [new] secrets (st'.commitTx s) :=
    ⟨h'.fileKeys, fun p => h'.done p (by simp), h'.scanned, h'.texts, TxTable.view_commit_self _ _⟩
  exact ⟨h'.intact, hnew.intact (by simp) hall, hnew.endTx⟩

/-! ### The rotation -/

variable (F) in
/-- Every token of the table decrypts under `keys`. -/
def Verifies (keys : List Text) (st : Server S Key) : Prop :=
  ∀ p t, token st.table.committed p = some t → (F.opens keys t).isSome

variable (F) in
/-- Either the rotation refuses to go on, having no key or a row its keys do
    not open, or the first of its keys opens every row alone. -/
def Rotatable (st : Server S Key) : Prop :=
  st.keys = [] ∨ ¬ Verifies F st.keys st ∨ Verifies F (st.keys.take 1) st

/-- The key is replaced where the old one opens every row. -/
theorem replaceKey_keeps {g : GeneratedKey F} (hold : IsKeyText old)
    (hspells : (F.ofText old).isSome) (h : Settled F s file [old] secrets st)
    (hI : Intact F secrets st) :
    (replaceKey F old g.text).Keeps (exec (F := F)) s (Intact F secrets)
      (fun _ st' => Intact F secrets st') st := by
  have hend : ∀ st' : Server S Key, Intact F secrets st' → Intact F secrets (st'.endTx s) :=
    fun st' h' => h'.endTx
  have hboth : ∀ k ∈ [g.text, old], (F.ofText k).isSome := by
    simp [g.spells, hspells]
  have hone : ∀ k ∈ [g.text], (F.ofText k).isSome := by simp [g.spells]
  have hdual : ∀ {st' : Server S Key}, Settled F s [g.text, old] [old] secrets st' →
      Intact F secrets st' := fun h' => h'.intact (by simp) hboth
  have hnew : ∀ {st' : Server S Key}, Settled F s [g.text, old] [g.text] secrets st' →
      Intact F secrets st' := fun h' => h'.intact (by simp) hboth
  have hlast : ∀ {st' : Server S Key}, Settled F s [g.text] [g.text] secrets st' →
      Intact F secrets st' := fun h' => h'.intact (by simp) hone
  -- the file holds both keys, the rows are under the old one
  refine keeps_bind (keeps_await hI fun ω v st' he => ?_)
  cases he
  have hkeys : ∀ k ∈ [g.text, old], IsKeyText k := by simp [g.isKeyText, hold]
  have h₁ := h.replaceFile hkeys
  refine ⟨keeps_bind (keeps_loadKeysFromFile (hdual h₁) (fun mf => hdual (h₁.load mf)) fun mf => ?_),
    hdual h₁⟩
  refine keeps_bind (keeps_makeMultiFernet (hdual (h₁.load mf)) fun both hmf => ?_)
  -- the rows are under the new one
  refine keeps_bind ((keeps_reencryptAll hmf hboth (h₁.load mf)).mono fun _ st₂ h₂ => ?_)
  refine keeps_bind (keeps_makeMultiFernet (hnew h₂) fun newOnly _ => ?_)
  refine keeps_bind ((keeps_verifyWith hend (fun _ => hnew) h₂).mono fun post st₃ h₃ => ?_)
  split_ifs
  · exact keeps_raise (hnew h₃.1)
  -- the file holds the new key alone
  · refine keeps_bind (keeps_await (hnew h₃.1) fun ω v st' he => ?_)
    cases he
    have hkey : ∀ k ∈ [g.text], IsKeyText k := by simp [g.isKeyText]
    have h₄ := h₃.1.replaceFile hkey
    refine ⟨keeps_bind (keeps_loadKeysFromFile (hlast h₄) (fun mf => hlast (h₄.load mf)) fun mf => ?_),
      hlast h₄⟩
    exact keeps_ret (hlast (h₄.load mf))

/-- Wherever a rotation stops, the table carries the secrets under the keys of the file. -/
theorem rotateKey_keeps (hI : Intact F secrets st) (hidle : st.table.view s = st.table.committed)
    (hrot : Rotatable F st) :
    (rotateKey F).Keeps (exec (F := F)) s (Intact F secrets) (fun _ st' => Intact F secrets st')
      st := by
  have hset := hI.settled hidle
  refine keeps_bind (keeps_read hI fun ω v st' he => ?_)
  cases he
  refine ⟨rfl, ?_⟩
  cases hkeys : st.keys with
  | nil => exact keeps_raise hI
  | cons old others =>
    refine keeps_bind (keeps_makeMultiFernet hI fun mf hmf => ?_)
    have hend : ∀ st' : Server S Key, Intact F secrets st' → Intact F secrets (st'.endTx s) :=
      fun st' h' => h'.endTx
    have hintact : ∀ st' : Server S Key,
        Settled F s st.fileKeys st.fileKeys secrets st' → Intact F secrets st' :=
      fun st' h' => ⟨fun p => h'.fileKeys.symm ▸ h'.carries p, h'.complete, h'.texts⟩
    refine keeps_bind ((keeps_verifyWith hend hintact hset).mono ?_)
    rintro pre st' ⟨hset', hsame, hver⟩
    split_ifs with hfail
    · exact keeps_raise (hintact st' hset')
    · have hverifies : Verifies F (old :: others) st := by
        intro p t ht
        have hdec := hver (Nat.eq_zero_of_not_pos hfail) p t ht
        unfold Fernet.opens
        rw [hmf]
        exact hdec
      have hold : Verifies F [old] st := by
        rcases hrot with h | h | h
        · rw [hkeys] at h
          cases h
        · rw [hkeys] at h
          exact absurd hverifies h
        · rw [hkeys] at h
          exact h
      have hcarries : ∀ p, Carries F [old] secrets st'.table.committed p := by
        intro p
        refine (hset'.carries p).of_opens fun t ht => hold p t ?_
        rw [← hsame]
        exact ht
      have hsettled : Settled F s st.fileKeys [old] secrets st' :=
        ⟨hset'.fileKeys, hcarries, hset'.complete, hset'.texts, hset'.idle⟩
      have hmem : old ∈ st.keys := by
        rw [hkeys]
        exact List.mem_cons_self
      refine keeps_bind (keeps_read (hintact st' hset') fun ω v st'' he => ?_)
      cases he
      exact ⟨rfl, replaceKey_keeps (hI.texts old hmem)
        (Fernet.multiFernet_spells hmf old List.mem_cons_self) hsettled (hintact st' hset')⟩

/-! ### The start of a process -/

variable (F) in
/-- Every secret is still there, and others may have joined. -/
def Kept (secrets : Pubkey → Option Text) (st : Server S Key) : Prop :=
  ∃ secrets', (∀ p m, secrets p = some m → secrets' p = some m) ∧ Intact F secrets' st

omit [DecidableEq S] in
theorem Intact.kept (h : Intact F secrets st) : Kept F secrets st := ⟨secrets, fun _ _ hm => hm, h⟩

theorem Kept.endTx (h : Kept F secrets st) : Kept F secrets (st.endTx s) := by
  obtain ⟨secrets', hsub, h'⟩ := h
  exact ⟨secrets', hsub, h'.endTx⟩

theorem Kept.exit (h : Kept F secrets st) : Kept F secrets (st.exit s) := by
  obtain ⟨secrets', hsub, h'⟩ := h
  exact ⟨secrets', hsub, h'.exit⟩

variable (F s) in
/-- After a first key has been written to the file: that key opens whatever the
    table holds. -/
structure Minted (key : Text) (st : Server S Key) : Prop where
  fileKeys : st.fileKeys = [key]
  opens : ∀ p t, token st.table.committed p = some t → (F.opens [key] t).isSome
  complete : ∀ p, st.table.committed p ≠ none → p ∈ st.pubkeys
  texts : ∀ k ∈ st.keys, IsKeyText k
  viewed : ∀ p t, token (st.table.view s) p = some t → (F.opens [key] t).isSome
  scanned : ∀ p, st.table.view s p ≠ none → p ∈ st.pubkeys

variable {key : Text}

omit [DecidableEq S] in
/-- There was no secret to lose. -/
theorem Minted.kept (h : Minted F s key st) (hnone : ∀ p, secrets p = none) : Kept F secrets st := by
  refine ⟨fun p => (token st.table.committed p).bind (F.opens [key]), fun p m hm => ?_, ?_,
    h.complete, h.texts⟩
  · rw [hnone p] at hm
    cases hm
  · intro p
    rw [h.fileKeys, carries_iff]
    cases ht : token st.table.committed p with
    | none => exact Or.inl ⟨rfl, rfl⟩
    | some t =>
      obtain ⟨m, hm⟩ := Option.isSome_iff_exists.1 (h.opens p t ht)
      exact Or.inr ⟨t, m, rfl, hm, hm⟩

theorem Minted.commitTx (h : Minted F s key st) : Minted F s key (st.commitTx s) where
  fileKeys := h.fileKeys
  opens := h.viewed
  complete := h.scanned
  texts := h.texts
  viewed := by
    change ∀ p t, token ((st.table.commit s).view s) p = some t → _
    rw [TxTable.view_commit_self]
    exact h.viewed
  scanned := by
    change ∀ p, (st.table.commit s).view s p ≠ none → _
    rw [TxTable.view_commit_self]
    exact h.scanned

omit [DecidableEq S] in
theorem Minted.load (h : Minted F s key st) (mf : Option (MultiFernet Key)) :
    Minted F s key { st with keys := st.fileKeys, mf := mf } :=
  ⟨h.fileKeys, h.opens, h.complete, fun _ hk => isKeyText_of_mem_readKeys hk, h.viewed, h.scanned⟩

theorem Minted.update {p : Pubkey} {t : Text} {T : TxTable S Pubkey Row} (h : Minted F s key st)
    (ht : (F.opens [key] t).isSome)
    (hT : st.table.modify s p (fun row => { row with encryptedNsec := some t }) = some T) :
    Minted F s key { st with table := T } := by
  rcases TxTable.modify_cases hT with ⟨-, rfl⟩ | ⟨row, hrow, -, rfl⟩
  · exact h
  · refine ⟨h.fileKeys, h.opens, h.complete, h.texts, fun q u hu => ?_, fun q hq => ?_⟩
    · change token ((st.table.write s p _).view s) q = some u at hu
      unfold token at hu
      rw [TxTable.view_write] at hu
      by_cases hqp : q = p
      · rw [hqp, Function.update_self] at hu
        cases hu
        exact ht
      · rw [Function.update_of_ne hqp] at hu
        exact h.viewed q u hu
    · change (st.table.write s p _).view s q ≠ none at hq
      rw [TxTable.view_write] at hq
      by_cases hqp : q = p
      · exact hqp ▸ h.scanned p (by rw [hrow]; exact Option.some_ne_none _)
      · rw [Function.update_of_ne hqp] at hq
        exact h.scanned q hq

theorem keeps_encryptRows {mf : MultiFernet Key} (hmf : F.multiFernet [key] = some mf)
    (hnone : ∀ p, secrets p = none) : ∀ {rows : List (Pubkey × Text)} {st : Server S Key},
    Minted F s key st → (encryptRows F mf rows).Keeps (exec (F := F)) s (Kept F secrets)
      (fun _ st' => Minted F s key st') st := by
  intro rows
  induction rows with
  | nil => exact fun h => keeps_ret h
  | cons r rows ih =>
    obtain ⟨p, plaintext⟩ := r
    intro st h
    unfold encryptRows
    refine keeps_bind (keeps_read (h.kept hnone) fun ω r st' he => ?_)
    cases he
    refine ⟨rfl, keeps_bind (keeps_await (h.kept hnone) fun ω v st' he => ?_)⟩
    obtain ⟨T, hT, hst⟩ := Option.map_eq_some_iff.1 he
    cases hst
    have hnext := h.update (Option.isSome_iff_exists.2 ⟨_, Fernet.opens_encryptMulti hmf _ _⟩) hT
    exact ⟨keeps_bind ((ih hnext).mono fun n st' h' => keeps_ret h'), hnext.kept hnone⟩

/-- A first key is written where no row holds a token. -/
theorem mintKey_keeps {g : GeneratedKey F} (h : Settled F s file under secrets st)
    (hnone : ∀ p, token st.table.committed p = none ∧ secrets p = none) :
    (mintKey F g.text).Keeps (exec (F := F)) s (Kept F secrets) (fun _ => Kept F secrets) st := by
  have hsecrets : ∀ p, secrets p = none := fun p => (hnone p).2
  have hI : Kept F secrets st :=
    Intact.kept ⟨fun p => carries_iff.2 (Or.inl (hnone p)), h.complete, h.texts⟩
  have hfresh : ∀ p t, token st.table.committed p = some t → (F.opens [g.text] t).isSome := by
    intro p t ht
    rw [(hnone p).1] at ht
    cases ht
  have hkey : ∀ k ∈ [g.text], IsKeyText k := by simp [g.isKeyText]
  refine keeps_bind (keeps_await hI fun ω v st' he => ?_)
  cases he
  have h₁ : Minted F s g.text { st with file := some (joinKeys [g.text]) } :=
    ⟨readKeys_joinKeys hkey, hfresh, h.complete, h.texts, h.idle.symm ▸ hfresh,
      h.idle.symm ▸ h.complete⟩
  have h₂ := h₁.load
  refine ⟨keeps_bind (keeps_loadKeysFromFile (h₁.kept hsecrets) (fun mf => (h₂ mf).kept hsecrets)
    fun mf => ?_), h₁.kept hsecrets⟩
  refine keeps_bind (keeps_bind (keeps_read ((h₂ mf).kept hsecrets) fun ω v st' he => ?_))
  cases he
  refine ⟨rfl, keeps_bind (keeps_makeMultiFernet ((h₂ mf).kept hsecrets) fun mf' hmf' => ?_)⟩
  change F.multiFernet (readKeys (some (joinKeys [g.text]))) = some mf' at hmf'
  rw [readKeys_joinKeys hkey] at hmf'
  refine keeps_dbSession (fun st' h' => h'.endTx)
    (keeps_bind (keeps_read ((h₂ mf).kept hsecrets) fun ω v st' he => ?_))
  cases he
  refine ⟨rfl, (keeps_encryptRows hmf' hsecrets (h₂ mf)).mono fun _ st' h' => ?_⟩
  exact ⟨h'.kept hsecrets, h'.commitTx.kept hsecrets, keeps_ret (h'.commitTx.kept hsecrets).endTx⟩

omit [DecidableEq S] in
/-- A file without keys carries no secret. -/
theorem Intact.no_secret (h : Intact F secrets st) (hfile : st.fileKeys = []) (p : Pubkey) :
    token st.table.committed p = none ∧ secrets p = none := by
  rcases carries_iff.1 (h.carries p) with hnone | ⟨t, m, -, -, hopen⟩
  · exact hnone
  · rw [hfile] at hopen
    obtain ⟨-, k, hk, -⟩ := Fernet.opens_eq_some.1 hopen
    cases hk

/-- Wherever a start stops, every secret is kept. -/
theorem bootstrapKeys_keeps (hI : Intact F secrets st)
    (hidle : st.table.view s = st.table.committed) :
    (bootstrapKeys F).Keeps (exec (F := F)) s (Kept F secrets) (fun _ => Kept F secrets) st := by
  have hend : ∀ st' : Server S Key, Kept F secrets st' → Kept F secrets (st'.endTx s) :=
    fun st' h' => h'.endTx
  have hset := hI.settled hidle
  have hintact : ∀ {st' : Server S Key},
      Settled F s st.fileKeys st.fileKeys secrets st' → Kept F secrets st' := by
    intro st' h'
    exact Intact.kept ⟨fun p => h'.fileKeys.symm ▸ h'.carries p, h'.complete, h'.texts⟩
  refine keeps_bind (keeps_loadKeysFromFile hI.kept (fun mf => hintact (hset.load mf)) fun mf => ?_)
  have hloaded := hset.load mf
  split_ifs with hpos
  · exact keeps_ret (hintact hloaded)
  · have hfile : st.fileKeys = [] := List.eq_nil_of_length_eq_zero (by omega)
    have hnone : ∀ p, token st.table.committed p = none ∧ secrets p = none := hI.no_secret hfile
    have hnone' : ∀ p, token (st.table.view s) p = none ∧ secrets p = none := hidle.symm ▸ hnone
    refine keeps_bind (keeps_dbSession hend (keeps_read (hintact hloaded) fun ω v st' he => ?_))
    cases he
    refine ⟨rfl, hintact hloaded, hintact hloaded.commitTx, ?_⟩
    split_ifs
    · exact keeps_ret (hintact hloaded.commitTx.endTx)
    · refine keeps_bind (keeps_read (hintact hloaded.commitTx.endTx) fun ω v st' he => ?_)
      cases he
      exact ⟨rfl, mintKey_keeps hloaded.commitTx.endTx hnone'⟩

end

/-! ## Runs -/

section
variable [DecidableEq S] {secrets : Pubkey → Option Text} {st : Server S Key}

variable (F s) in
/-- Between two episodes. -/
structure Resting (secrets : Pubkey → Option Text) (st : Server S Key) : Prop where
  kept : Kept F secrets st
  idle : st.table.view s = st.table.committed

theorem Kept.resting_endTx (h : Kept F secrets st) : Resting F s secrets (st.endTx s) :=
  ⟨h.endTx, TxTable.view_rollback_self _ _⟩

theorem Kept.resting_exit (h : Kept F secrets st) : Resting F s secrets (st.exit s) :=
  ⟨h.exit, TxTable.view_rollback_self _ _⟩

variable (F) in
/-- Only a rotation asks for anything before it starts. -/
def Episode.Admitted (st : Server S Key) : Episode F → Prop
  | .rotate _ => Rotatable F st
  | .boot _ => True

theorem Resting.episode (e : Episode F) (h : Resting F s secrets st) (he : e.Admitted F st) :
    Resting F s secrets (e.run s st) := by
  obtain ⟨⟨secrets', hsub, hI⟩, hidle⟩ := h
  have hkept : ∀ {st' : Server S Key}, Kept F secrets' st' → Kept F secrets st' := by
    rintro st' ⟨secrets'', hsub', hI'⟩
    exact ⟨secrets'', fun p m hm => hsub' p m (hsub p m hm), hI'⟩
  cases e with
  | rotate ωs =>
    have hstop := hkept ((rotateKey_keeps hI hidle he).upTo (fun _ _ h => h) ωs).kept
    cases hrun : (rotateKey F).upTo exec s ωs st with
    | mk p st' =>
      rw [hrun] at hstop
      simp only [Episode.run, hrun]
      cases p with
      | ret a => exact hstop.resting_endTx
      | raise e => exact hstop.resting_endTx
      | op c k => exact hstop.resting_exit
  | boot ωs =>
    have hidle' : (st.exit s).table.view s = (st.exit s).table.committed :=
      TxTable.view_rollback_self _ _
    have hstop := hkept ((bootstrapKeys_keeps hI.exit hidle').upTo (fun _ _ h => h) ωs)
    cases hrun : (bootstrapKeys F).upTo exec s ωs (st.exit s) with
    | mk p st' =>
      rw [hrun] at hstop
      simp only [Episode.run, hrun]
      cases p with
      | ret a => exact hstop.resting_endTx
      | raise e => exact hstop.resting_exit
      | op c k => exact hstop.resting_exit

variable (F s) in
/-- Every rotation of the run starts where it may. -/
def Admitted : List (Episode F) → Server S Key → Prop
  | [], _ => True
  | e :: es, st => e.Admitted F st ∧ Admitted es (e.run s st)

theorem Resting.runs : ∀ {es : List (Episode F)} {st : Server S Key}, Resting F s secrets st →
    Admitted F s es st → Resting F s secrets (run s es st)
  | [], _, h, _ => h
  | e :: _, _, h, ha => (h.episode e ha.1).runs ha.2

omit [DecidableEq S] in
/-- Between two episodes a scan decides whether keys open every row. -/
theorem Resting.verifies {keys : List Text} (h : Resting F s secrets st)
    (hscan : ∀ r ∈ st.encrypted s, (F.opens keys r.2).isSome) : Verifies F keys st := by
  obtain ⟨⟨secrets', -, hI⟩, hidle⟩ := h
  intro p t ht
  exact hscan (p, t) ((hI.settled hidle).mem_encrypted.2 ht)

end

variable (F) in
/-- What the rows of a table decrypt to. -/
def secretsOf (file : Option Text) (rows : List (Pubkey × Row)) (p : Pubkey) : Option Text :=
  (token (rows.lookup ·) p).bind (F.opens (readKeys file))

theorem stopped_resting {file : Option Text} {rows : List (Pubkey × Row)}
    (h : ∀ p t, token (rows.lookup ·) p = some t → (F.opens (readKeys file) t).isSome) :
    Resting F s (secretsOf F file rows) (Server.stopped file rows) := by
  refine ⟨Intact.kept ⟨fun q => carries_iff.2 ?_, fun q hq => ?_, fun _ hk => nomatch hk⟩, rfl⟩
  · change (token (rows.lookup ·) q = none ∧ _) ∨ ∃ t m, token (rows.lookup ·) q = some t ∧ _ ∧
      F.opens (readKeys file) t = some m
    unfold secretsOf
    cases hq : token (rows.lookup ·) q with
    | none => exact Or.inl ⟨rfl, rfl⟩
    | some u =>
      obtain ⟨v, hv⟩ := Option.isSome_iff_exists.1 (h q u hq)
      exact Or.inr ⟨u, v, rfl, hv, hv⟩
  · obtain ⟨row, hrow⟩ := Option.ne_none_iff_exists'.1 hq
    obtain ⟨l₁, l₂, hl, -⟩ := List.lookup_eq_some_iff.1 hrow
    exact List.mem_map.2 ⟨(q, row), by rw [hl]; simp, rfl⟩

/-! ### A small instance -/

/-- A cipher that writes the key in front of the plaintext. -/
def sampleFernet : Fernet { t : Text // ':' ∉ t } where
  ofText t := if h : ':' ∉ t then some ⟨t, h⟩ else none
  encrypt k _ m := k.1 ++ ':' :: m
  decrypt k t := if t.takeWhile (· ≠ ':') = k.1 ∧ ':' ∈ t
    then some (t.dropWhile (· ≠ ':')).tail else none
  decrypt_encrypt k r m := by
    have hk : ∀ c ∈ k.1, decide (c ≠ ':') = true := by
      intro c hc
      have hne : c ≠ ':' := fun he => k.2 (he ▸ hc)
      simpa using hne
    rw [List.takeWhile_append_of_pos hk, List.dropWhile_append_of_pos hk]
    simp
  key_unique := by
    intro k k' t m m' h h'
    split_ifs at h with hk
    split_ifs at h' with hk'
    exact Subtype.ext (hk'.1.symm.trans hk.1)

/-- A world in which the next key is a letter, and nothing goes wrong. -/
def sampleOutside (c : Char) (hc : c.isAlphanum = true ∧ c ≠ ':') : Outside sampleFernet where
  fault := none
  key := ⟨[c], by simp, by simp [hc.1], by
    have h : ':' ∉ [c] := by simpa using hc.2.symm
    simp [sampleFernet, h]⟩
  salt := 0

theorem keyChar_b : 'b'.isAlphanum = true ∧ 'b' ≠ ':' := by decide

/-- The file holds one key, and one row is under it. -/
def sampleRows : List (Pubkey × Row) := [("p", ⟨['x'], some ['a', ':', 'x']⟩)]

def sampleServer : Server Unit { t : Text // ':' ∉ t } := .stopped (some ['a']) sampleRows

theorem sample_token {p : Pubkey} {t : Text}
    (h : token (sampleRows.lookup ·) p = some t) :
    t = ['a', ':', 'x'] := by
  simp only [sampleRows, token, List.lookup_cons, List.lookup_nil] at h
  split at h
  · exact (Option.some.inj h).symm
  · cases h

theorem sample_opens (p : Pubkey) (t : Text) (h : token (sampleRows.lookup ·) p = some t) :
    (sampleFernet.opens (readKeys (some ['a'])) t).isSome := by
  rw [sample_token h]
  decide

/-! ### Runs that keep every secret -/

/-- **Every secret survives a run in which each rotation starts where its first
    loaded key opens every row, or refuses to go on.**  The run consists of
    rotations and starts of the process, each with failures of its own and
    killed anywhere. -/
theorem rotations_keep_secrets [DecidableEq S] (F : Fernet Key) (s : S) (file : Option Text)
    (rows : List (Pubkey × Row)) (es : List (Episode F))
    (h₀ : ∀ p t, token (rows.lookup ·) p = some t → (F.opens (readKeys file) t).isSome)
    (hes : Admitted F s es (Server.stopped file rows)) (p : Pubkey) (t m : Text)
    (ht : token (rows.lookup ·) p = some t) (hm : F.opens (readKeys file) t = some m) :
    ∃ t', token (run s es (Server.stopped file rows)).table.committed p = some t' ∧
      F.opens (run s es (Server.stopped file rows)).fileKeys t' = some m := by
  have hrest : Resting F s (secretsOf F file rows) (Server.stopped file rows) := stopped_resting h₀
  obtain ⟨⟨secrets', hsub, hfinal⟩, -⟩ := hrest.runs hes
  have hsecret : secrets' p = some m := hsub p m (by simp only [secretsOf, ht, Option.bind_some, hm])
  rcases carries_iff.1 (hfinal.carries p) with ⟨-, hnone⟩ | ⟨t', m', ht', hm', hopen⟩
  · rw [hsecret] at hnone
    cases hnone
  · rw [hsecret] at hm'
    cases hm'
    exact ⟨t', ht', hopen⟩

/-- The process starts, rotates, is killed at the dual-key write of the next
    rotation, and starts again. -/
def survivedCrash : List (Episode sampleFernet) :=
  let ok := sampleOutside 'b' (by decide)
  [.boot (List.replicate 3 ok), .rotate (List.replicate 21 ok),
    .rotate (List.replicate 6 (sampleOutside 'c' (by decide))), .boot (List.replicate 3 ok)]

theorem survivedCrash_admitted : Admitted sampleFernet () survivedCrash sampleServer := by
  have h₀ : Resting sampleFernet () (secretsOf sampleFernet (some ['a']) sampleRows) sampleServer :=
    stopped_resting sample_opens
  have h₁ := h₀.episode (survivedCrash[0]) trivial
  have hr₁ : Rotatable sampleFernet (run () (survivedCrash.take 1) sampleServer) :=
    Or.inr (Or.inr (h₁.verifies (by decide)))
  have h₂ := h₁.episode (survivedCrash[1]) hr₁
  have hr₂ : Rotatable sampleFernet (run () (survivedCrash.take 2) sampleServer) :=
    Or.inr (Or.inr (h₂.verifies (by decide)))
  exact ⟨trivial, hr₁, hr₂, trivial, trivial⟩

theorem survivedCrash_keeps :
    (run () survivedCrash sampleServer).fileKeys = [['c'], ['b']] ∧
    ∃ t', token (run () survivedCrash sampleServer).table.committed "p" = some t' ∧
      sampleFernet.opens (run () survivedCrash sampleServer).fileKeys t' = some ['x'] :=
  ⟨by decide, rotations_keep_secrets sampleFernet () (some ['a']) sampleRows survivedCrash
    sample_opens survivedCrash_admitted "p" ['a', ':', 'x'] ['x'] rfl (by decide)⟩

/-! ### A lost key -/

/-- A rotation that passes its pre-flight and is killed right after the dual-key
    write: the keys, the three commands of the session, the new key, the file. -/
theorem rotate_to_dual_write [DecidableEq S] {st : Server S Key} {old : Text} {others : List Text}
    {mf : MultiFernet Key} (g : GeneratedKey F) (hkeys : st.keys = old :: others)
    (hmf : F.multiFernet (old :: others) = some mf)
    (hfail : (st.encrypted s).countP (fun r => (F.decryptMulti mf r.2).isNone) = 0) :
    (Episode.rotate (List.replicate 6 ⟨none, g, 0⟩)).run s st =
      { ((st.commitTx s).endTx s).exit s with file := some (joinKeys [g.text, old]) } := by
  simp only [Episode.run, rotateKey, replaceKey, writeKeysToFile, loadKeysFromFile, await,
    List.replicate, bind_eq, pure_eq, call_bind, Prog.bind, upTo, exec, effect, Option.map_some,
    Prog.ofExcept, hkeys, makeMultiFernet, hmf, verifyWith, dbSession, Prog.tryCatch,
    Prog.tryFinally, hfail, gt_iff_lt, lt_irrefl, if_false]
  rfl

/-- **Nothing less will do.**  From any other state a rotation that gets no
    further than its dual-key write strands a row: it decrypts under the loaded
    keys, and no longer under those of the file. -/
theorem rotation_strands [DecidableEq S] {st : Server S Key}
    (hidle : st.table.view s = st.table.committed) (htexts : ∀ k ∈ st.keys, IsKeyText k)
    (hrot : ¬ Rotatable F st) (g : GeneratedKey F)
    (hg : ∀ k ∈ st.keys, F.ofText k ≠ F.ofText g.text) :
    ∃ (ωs : List (Outside F)) (p : Pubkey) (t m : Text),
      token st.table.committed p = some t ∧ F.opens st.keys t = some m ∧
      token ((Episode.rotate ωs).run s st).table.committed p = some t ∧
      F.opens ((Episode.rotate ωs).run s st).fileKeys t = none := by
  obtain ⟨hne, hver, hfirst⟩ : st.keys ≠ [] ∧ Verifies F st.keys st ∧
      ¬ Verifies F (st.keys.take 1) st := by
    simpa [Rotatable, not_or] using hrot
  cases hkeys : st.keys with
  | nil => exact absurd hkeys hne
  | cons old others =>
    rw [hkeys] at hver hfirst htexts hg
    simp only [Verifies, not_forall] at hfirst
    obtain ⟨p, t, ht, hclosed⟩ := hfirst
    obtain ⟨m, hm⟩ := Option.isSome_iff_exists.1 (hver p t ht)
    obtain ⟨mf, hmf, -⟩ := Option.bind_eq_some_iff.1 hm
    have hfail : (st.encrypted s).countP (fun r => (F.decryptMulti mf r.2).isNone) = 0 := by
      refine List.countP_eq_zero.2 fun r hr => ?_
      have htok : token st.table.committed r.1 = some r.2 := by
        rw [← hidle]
        exact (mem_encrypted.1 hr).2
      have hsome := hver r.1 r.2 htok
      unfold Fernet.opens at hsome
      rw [hmf, Option.bind_some] at hsome
      simpa [Option.isSome_iff_ne_none] using hsome
    have hrun := rotate_to_dual_write g hkeys hmf hfail
    refine ⟨List.replicate 6 ⟨none, g, 0⟩, p, t, m, ht, hm, ?_, ?_⟩
    · rw [hrun]
      change token (st.table.view s) p = some t
      rw [hidle]
      exact ht
    · have hfile : readKeys (some (joinKeys [g.text, old])) = [g.text, old] :=
        readKeys_joinKeys (by simp [g.isKeyText, htexts old])
      rw [hrun]
      change F.opens (readKeys (some (joinKeys [g.text, old]))) t = none
      rw [hfile, Option.eq_none_iff_forall_ne_some]
      intro m' hm'
      -- neither the new key nor the first of the loaded ones made the token
      obtain ⟨-, k', hk', key', hkey', hdec'⟩ := Fernet.opens_eq_some.1 hm
      obtain ⟨hall, k, hk, key, hkey, hdec⟩ := Fernet.opens_eq_some.1 hm'
      rcases List.mem_cons.1 hk with rfl | hk
      · refine hg k' hk' ?_
        rw [hkey, hkey', F.key_unique hdec hdec']
      · refine hclosed (Option.isSome_iff_exists.2 ⟨m', Fernet.opens_eq_some.2 ⟨?_, k, hk, key,
          hkey, hdec⟩⟩)
        exact fun x hx => hall x (List.mem_cons_of_mem _ hx)

/-- The process starts, and a rotation fails to commit the new tokens. -/
def failedRotation : List (Episode sampleFernet) :=
  let ok := sampleOutside 'b' (by decide)
  [.boot (List.replicate 3 ok),
    .rotate (List.replicate 12 ok ++
      [{ ok with fault := some (.before .sqlAlchemyError) }] ++ List.replicate 2 ok)]

/-- The rotation is tried again. -/
def retriedRotation : List (Episode sampleFernet) :=
  failedRotation ++ [Episode.rotate (List.replicate 12 (sampleOutside 'c' (by decide)))]

/-- **A rotation that is tried again after a failure strands a row.**  The row
    decrypts at first and after the failure, when the file holds the new key and
    the old one.  The second rotation takes the new key for old: the file ends
    with two keys neither of which opens the row. -/
theorem retried_rotation_strands :
    (∀ p t, token (sampleRows.lookup ·) p = some t →
      (sampleFernet.opens (readKeys (some ['a'])) t).isSome) ∧
    token (sampleRows.lookup ·) "p" = some ['a', ':', 'x'] ∧
    (run () failedRotation sampleServer).fileKeys = [['b'], ['a']] ∧
    (run () retriedRotation sampleServer).fileKeys = [['c'], ['b']] ∧
    token (run () retriedRotation sampleServer).table.committed "p" = some ['a', ':', 'x'] ∧
    sampleFernet.opens (run () retriedRotation sampleServer).fileKeys ['a', ':', 'x'] = none := by
  exact ⟨sample_opens, rfl, by decide, by decide, by decide, by decide⟩

end Nsec

end BrainstormServer
