/-
  A rotation beside the creation of accounts
  (`get_or_create_brainstorm_observer_nsec_by_pubkey_on_db` in
  `app/repos/brainstorm_nsec.py`).

  A creation looks for its row, encrypts a fresh secret under the keys loaded at
  that moment, inserts the row and commits whenever its caller does.  It sees
  nothing of a rotation, and a rotation sees only what is committed.

  * `beside` is one step of the whole: a command of `rotate_key`, or a step of a
    creation in any other session;
  * `Phase` is what holds between two commands of the rotation, and `Phase.create`
    that creations keep it;
  * `rotation_beside_creations`: no row is lost as long as what commits after the
    rotation's last scan was encrypted under the key that is then loaded first;
  * `late_commit_strands`: otherwise it is.
-/
import BrainstormServer.Conc.Machine
import BrainstormServer.Conc.Rely
import BrainstormServer.Nsec.AbortSafety

namespace BrainstormServer

namespace Nsec

open Conc Prog

variable {S Key : Type} {F : Fernet Key}

/-! ## Creations -/

/-- Where a creation stands. -/
inductive Creation
  | idle
  /-- its row is not there -/
  | absent (pubkey : Pubkey)
  /-- before the `INSERT` -/
  | made (pubkey : Pubkey) (row : Row)
  /-- before the commit of its caller -/
  | flushed (pubkey : Pubkey) (row : Row)
  deriving DecidableEq

/-- The row that a creation is about to add. -/
def Creation.row : Creation → Option Row
  | .idle | .absent _ => none
  | .made _ row | .flushed _ row => some row

/-- The server, the creations in their sessions, and how often the rotation has
    read all tokens. -/
structure Site (S Key : Type) where
  server : Server S Key
  creations : S → Creation
  scans : ℕ

variable (F) in
/-- `encrypt_nsec`. -/
def encryptNsec (mf : Option (MultiFernet Key)) (salt : ℕ) (plaintext : Text) : Text :=
  match mf with
  | none => plaintext
  | some mf => F.encryptMulti mf salt plaintext

/-- A step of a creation. -/
inductive Create (S : Type)
  | lookup (i : S) (pubkey : Pubkey)
  | encrypt (i : S) (nsec : Text) (salt : ℕ)
  | flush (i : S)
  | commit (i : S)
  | rollback (i : S)

/-- The session of a step. -/
def Create.session : Create S → S
  | .lookup i _ | .encrypt i _ _ | .flush i | .commit i | .rollback i => i

section
variable [DecidableEq S]

/-- The creation in session `i` moves on. -/
def Site.setCreation (site : Site S Key) (i : S) (c : Creation) : Site S Key :=
  { site with creations := Function.update site.creations i c }

def Site.setTable (site : Site S Key) (table : TxTable S Pubkey Row) : Site S Key :=
  { site with server := { site.server with table := table } }

variable (F) in
/-- One step of a creation; `none` if it cannot take it or has to wait. -/
def create (e : Create S) (site : Site S Key) : Option (Site S Key) :=
  match e with
  | .lookup i pubkey =>
    if site.creations i = .idle then
      some (if site.server.table.view i pubkey = none then site.setCreation i (.absent pubkey) else site)
    else none
  | .encrypt i nsec salt =>
    match site.creations i with
    | .absent pubkey => some (site.setCreation i
        (.made pubkey ⟨nsec, some (encryptNsec F site.server.mf salt nsec)⟩))
    | _ => none
  | .flush i =>
    match site.creations i with
    | .made pubkey row =>
      if !site.server.table.free i pubkey then none
      else if site.server.table.view i pubkey = none then
        some { site with
          server := { site.server with
            table := site.server.table.write i pubkey (some row)
            pubkeys := if pubkey ∈ site.server.pubkeys then site.server.pubkeys
              else site.server.pubkeys ++ [pubkey] }
          creations := Function.update site.creations i (.flushed pubkey row) }
      -- the pubkey is taken
      else some ((site.setTable (site.server.table.rollback i)).setCreation i .idle)
    | _ => none
  | .commit i =>
    match site.creations i with
    | .flushed _ _ => some ((site.setTable (site.server.table.commit i)).setCreation i .idle)
    | _ => none
  | .rollback i => some ((site.setTable (site.server.table.rollback i)).setCreation i .idle)

/-- A read of all tokens that went well counts as a scan. -/
def scanned : (c : Cmd Key) → c.Ans → ℕ
  | .selectEncrypted, .ok _ => 1
  | _, _ => 0

/-- A command of the rotation. -/
def siteExec (s : S) (c : Cmd Key) (site : Site S Key) (ω : Outside F) :
    Option (c.Ans × Site S Key) :=
  (exec s c site.server ω).map fun r =>
    (r.1, { site with server := r.2, scans := site.scans + scanned c r.1 })

/-- What happens next. -/
inductive Event (S : Type) (F : Fernet Key)
  | rotate (ω : Outside F)
  | create (e : Create S)

/-- One step of a rotation in session `s` and the creations beside it. -/
def beside (s : S) (e : Event S F) (st : Act Key Unit × Site S Key) :
    Option (Act Key Unit × Site S Key) :=
  match e with
  | .rotate ω =>
    match st.1 with
    | .op c k => (siteExec s c st.2 ω).map fun r => (k r.1, r.2)
    | _ => none
  | .create e =>
    if e.session = s then none else (create F e st.2).map fun site => (st.1, site)

variable (F) in
/-- What a creation commits after the third scan, the rotation's last, was encrypted
    under the key that is loaded first. -/
def Site.timely (site : Site S Key) : Create S → Bool
  | .commit i => site.scans < 3 || ((site.creations i).row.bind (·.encryptedNsec)).all fun t =>
      (F.opens (site.server.keys.take 1) t).isSome
  | _ => true

/-- The steps of runs whose commits are all timely. -/
def timelyBeside (s : S) (e : Event S F) (st : Act Key Unit × Site S Key) :
    Option (Act Key Unit × Site S Key) :=
  match e with
  | .rotate _ => beside s e st
  | .create e' => if st.2.timely F e' then beside s e st else none

end

/-- A server that has loaded its keys, with nothing under way. -/
def Site.loaded (file : Option Text) (rows : List (Pubkey × Row)) (mf : MultiFernet Key) :
    Site S Key where
  server := { (Server.stopped file rows : Server S Key) with keys := readKeys file, mf := some mf }
  creations _ := .idle
  scans := 0

/-! ## Phases of the rotation -/

variable (F) in
/-- Between two commands of the rotation in session `s`, after `n` scans: the file
    holds `file`, the process has loaded `keys`, what is committed or written by the
    rotation opens under `under`, and what creations are about to commit under
    `flight`. -/
structure Phase (s : S) (n : ℕ) (file keys under flight : List Text) (site : Site S Key) : Prop where
  count : site.scans = n
  fileKeys : site.server.fileKeys = file
  loaded : site.server.keys = keys
  texts : ∀ k ∈ keys, IsKeyText k
  fresh : ∃ mf, site.server.mf = some mf ∧
    ∀ r m, (F.opens flight (F.encryptMulti mf r m)).isSome = true
  committed : ∀ p t, token site.server.table.committed p = some t → (F.opens under t).isSome = true
  own : ∀ p row t, site.server.table.pending s p = some (some row) → row.encryptedNsec = some t →
    (F.opens under t).isSome = true
  made : ∀ i row t, (site.creations i).row = some row → row.encryptedNsec = some t →
    (F.opens flight t).isSome = true
  held : ∀ i p v, i ≠ s → site.server.table.pending i p = some v →
    ∃ row, v = some row ∧ (site.creations i).row = some row
  scanned : ∀ p, site.server.table.committed p ≠ none ∨
    (∃ i, site.server.table.pending i p ≠ none) → p ∈ site.server.pubkeys
  timely : ∀ t, (F.opens flight t).isSome = true →
    (n < 3 ∨ (F.opens (keys.take 1) t).isSome = true) → (F.opens under t).isSome = true

section
variable {s i : S} {n : ℕ} {file keys under flight : List Text} {site site' : Site S Key}

/-- Rows that open under `under` for the rotation. -/
theorem Phase.viewed (h : Phase F s n file keys under flight site) {p : Pubkey} {t : Text}
    (ht : token (site.server.table.view s) p = some t) : (F.opens under t).isSome = true := by
  cases hp : site.server.table.pending s p with
  | none =>
    refine h.committed p t ?_
    unfold token at ht ⊢
    rwa [TxTable.view_eq_committed hp] at ht
  | some v =>
    have hview : site.server.table.view s p = v := by simp [TxTable.view, hp]
    unfold token at ht
    rw [hview] at ht
    obtain ⟨row, rfl, htok⟩ := Option.bind_eq_some_iff.1 ht
    exact h.own p row t hp htok

variable [DecidableEq S]

/-- The table may lose a transaction of a creation. -/
theorem Phase.rollback (h : Phase F s n file keys under flight site) (hi : i ≠ s) :
    Phase F s n file keys under flight
      ((site.setTable (site.server.table.rollback i)).setCreation i .idle) where
  count := h.count
  fileKeys := h.fileKeys
  loaded := h.loaded
  texts := h.texts
  fresh := h.fresh
  committed := h.committed
  own p row t hp ht := by
    refine h.own p row t ?_ ht
    have hp' : Function.update site.server.table.pending i (fun _ => none) s p = some (some row) := hp
    rwa [Function.update_of_ne (Ne.symm hi)] at hp'
  made j row t hrow ht := by
    have hrow' : (Function.update site.creations i .idle j).row = some row := hrow
    by_cases hj : j = i
    · rw [hj, Function.update_self] at hrow'
      cases hrow'
    · rw [Function.update_of_ne hj] at hrow'
      exact h.made j row t hrow' ht
  held j p v hj hp := by
    have hp' : Function.update site.server.table.pending i (fun _ => none) j p = some v := hp
    show ∃ row, v = some row ∧ (Function.update site.creations i .idle j).row = some row
    by_cases hji : j = i
    · rw [hji, Function.update_self] at hp'
      cases hp'
    · rw [Function.update_of_ne hji] at hp' ⊢
      exact h.held j p v hj hp'
  scanned p hp := by
    refine h.scanned p (hp.imp id ?_)
    rintro ⟨j, hj⟩
    have hj' : Function.update site.server.table.pending i (fun _ => none) j p ≠ none := hj
    by_cases hji : j = i
    · rw [hji, Function.update_self] at hj'
      exact absurd rfl hj'
    · rw [Function.update_of_ne hji] at hj'
      exact ⟨j, hj'⟩
  timely := h.timely

/-- The creation in session `i` moves on, with a row that opens under `flight`. -/
theorem Phase.setCreation (h : Phase F s n file keys under flight site) {c : Creation}
    (hpending : ∀ p, site.server.table.pending i p = none)
    (hc : ∀ row t, c.row = some row → row.encryptedNsec = some t → (F.opens flight t).isSome = true) :
    Phase F s n file keys under flight (site.setCreation i c) :=
  { h with
    made := by
      intro j row t hrow ht
      have hrow' : (Function.update site.creations i c j).row = some row := hrow
      by_cases hj : j = i
      · rw [hj, Function.update_self] at hrow'
        exact hc row t hrow' ht
      · rw [Function.update_of_ne hj] at hrow'
        exact h.made j row t hrow' ht
    held := by
      intro j p v hj hp
      show ∃ row, v = some row ∧ (Function.update site.creations i c j).row = some row
      by_cases hji : j = i
      · rw [hji] at hp
        have hp' : site.server.table.pending i p = some v := hp
        rw [hpending p] at hp'
        cases hp'
      · rw [Function.update_of_ne hji]
        exact h.held j p v hj hp }

/-- The row of a creation is inserted. -/
theorem Phase.flush (h : Phase F s n file keys under flight site) (hi : i ≠ s) {p : Pubkey}
    {row : Row} (hmade : site.creations i = .made p row) :
    Phase F s n file keys under flight { site with
      server := { site.server with
        table := site.server.table.write i p (some row)
        pubkeys := if p ∈ site.server.pubkeys then site.server.pubkeys
          else site.server.pubkeys ++ [p] }
      creations := Function.update site.creations i (.flushed p row) } := by
  have hrow : ∀ j row', (Function.update site.creations i (.flushed p row) j).row = some row' →
      (site.creations j).row = some row' := by
    intro j row' hj
    by_cases hji : j = i
    · rw [hji, Function.update_self] at hj
      rw [hji, hmade]
      exact hj
    · rwa [Function.update_of_ne hji] at hj
  have hpubkeys : ∀ q, q = p ∨ q ∈ site.server.pubkeys →
      q ∈ if p ∈ site.server.pubkeys then site.server.pubkeys else site.server.pubkeys ++ [p] := by
    rintro q hq
    split_ifs with hp
    · rcases hq with rfl | hq
      · exact hp
      · exact hq
    · rw [List.mem_append, List.mem_singleton]
      exact hq.symm
  have hwrite : ∀ j q v, (site.server.table.write i p (some row)).pending j q = some v →
      site.server.table.pending j q = some v ∨ (j = i ∧ q = p ∧ v = some row) := by
    intro j q v hv
    have hv' : Function.update site.server.table.pending i
      (Function.update (site.server.table.pending i) p (some (some row))) j q = some v := hv
    by_cases hji : j = i
    · rw [hji, Function.update_self] at hv'
      by_cases hqp : q = p
      · rw [hqp, Function.update_self] at hv'
        exact Or.inr ⟨hji, hqp, (Option.some.inj hv').symm⟩
      · rw [Function.update_of_ne hqp] at hv'
        exact Or.inl (hji ▸ hv')
    · rw [Function.update_of_ne hji] at hv'
      exact Or.inl hv'
  exact { h with
    own := by
      intro q row' t hq ht
      rcases hwrite s q _ hq with hq | ⟨hsi, -, -⟩
      · exact h.own q row' t hq ht
      · exact absurd hsi.symm hi
    made := fun j row' t hj ht => h.made j row' t (hrow j row' hj) ht
    held := by
      intro j q v hj hq
      show ∃ row', v = some row' ∧
        (Function.update site.creations i (.flushed p row) j).row = some row'
      by_cases hji : j = i
      · rw [hji, Function.update_self]
        refine ⟨row, ?_, rfl⟩
        rcases hwrite j q v hq with hq | ⟨-, -, hv⟩
        · obtain ⟨row', rfl, hrow'⟩ := h.held j q v hj hq
          rw [hji, hmade] at hrow'
          cases hrow'
          rfl
        · exact hv
      · rw [Function.update_of_ne hji]
        rcases hwrite j q v hq with hq | ⟨hji', -, -⟩
        · exact h.held j q v hj hq
        · exact absurd hji' hji
    scanned := by
      intro q hq
      refine hpubkeys q ?_
      rcases hq with hq | ⟨j, hj⟩
      · exact Or.inr (h.scanned q (Or.inl hq))
      · obtain ⟨v, hv⟩ := Option.ne_none_iff_exists'.1 hj
        rcases hwrite j q v hv with hv | ⟨-, hqp, -⟩
        · exact Or.inr (h.scanned q (Or.inr ⟨j, by rw [hv]; simp⟩))
        · exact Or.inl hqp }

/-- The row of a creation is committed, in time. -/
theorem Phase.commit (h : Phase F s n file keys under flight site) (hi : i ≠ s)
    (htimely : site.timely F (.commit i) = true) :
    Phase F s n file keys under flight
      ((site.setTable (site.server.table.commit i)).setCreation i .idle) := by
  have hend := h.rollback hi
  refine { hend with committed := fun p t ht => ?_, scanned := fun p hp => ?_ }
  · have ht' : token (site.server.table.view i) p = some t := ht
    cases hp : site.server.table.pending i p with
    | none =>
      refine h.committed p t ?_
      unfold token at ht' ⊢
      rwa [TxTable.view_eq_committed hp] at ht'
    | some v =>
      have hview : site.server.table.view i p = v := by simp [TxTable.view, hp]
      obtain ⟨row, rfl, hrow⟩ := h.held i p v hi hp
      unfold token at ht'
      rw [hview] at ht'
      have htok : row.encryptedNsec = some t := ht'
      refine h.timely t (h.made i row t hrow htok) ?_
      have hcond := htimely
      rw [Site.timely, h.count, h.loaded, hrow, Option.bind_some, htok, Option.all_some,
        Bool.or_eq_true, decide_eq_true_iff] at hcond
      exact hcond
  · rcases hp with hp | hp
    · have hp' : site.server.table.view i p ≠ none := hp
      by_cases hpend : site.server.table.pending i p = none
      · rw [TxTable.view_eq_committed hpend] at hp'
        exact h.scanned p (Or.inl hp')
      · exact h.scanned p (Or.inr ⟨i, hpend⟩)
    · exact hend.scanned p (Or.inr hp)

/-- **Creations keep the phases of a rotation**, as long as they commit in time. -/
theorem Phase.create (h : Phase F s n file keys under flight site) {e : Create S}
    (he : e.session ≠ s) (htimely : site.timely F e = true) (hstep : create F e site = some site') :
    Phase F s n file keys under flight site' := by
  have hnone : ∀ {j : S}, j ≠ s → (site.creations j).row = none →
      ∀ p, site.server.table.pending j p = none := by
    intro j hj hrow p
    by_contra hp
    obtain ⟨v, hv⟩ := Option.ne_none_iff_exists'.1 hp
    obtain ⟨row, -, hrow'⟩ := h.held j p v hj hv
    rw [hrow] at hrow'
    cases hrow'
  cases e with
  | lookup i pubkey =>
    simp only [Nsec.create] at hstep
    split_ifs at hstep with hidle hview
    · cases hstep
      refine h.setCreation (hnone he (by rw [hidle]; rfl)) fun row t hrow => ?_
      cases hrow
    · cases hstep
      exact h
  | encrypt i nsec salt =>
    simp only [Nsec.create] at hstep
    split at hstep
    · rename_i pubkey habsent
      cases hstep
      refine h.setCreation (hnone he (by rw [habsent]; rfl)) fun row t hrow ht => ?_
      cases hrow
      obtain ⟨mf, hmf, hopens⟩ := h.fresh
      cases ht
      rw [hmf]
      exact hopens salt nsec
    · cases hstep
  | flush i =>
    simp only [Nsec.create] at hstep
    split at hstep
    · rename_i pubkey row hmade
      by_cases hfree : (!site.server.table.free i pubkey) = true
      · rw [if_pos hfree] at hstep
        cases hstep
      · rw [if_neg hfree] at hstep
        by_cases hview : site.server.table.view i pubkey = none
        · rw [if_pos hview] at hstep
          cases hstep
          exact h.flush he hmade
        · rw [if_neg hview] at hstep
          cases hstep
          exact h.rollback he
    · cases hstep
  | commit i =>
    simp only [Nsec.create] at hstep
    split at hstep
    · cases hstep
      exact h.commit he htimely
    · cases hstep
  | rollback i =>
    cases hstep
    exact h.rollback he

end

/-! ## The rotation -/

section
variable [DecidableEq S] {s : S} {site : Site S Key}

variable (F s) in
/-- A step of a creation, in time. -/
def Beside (site site' : Site S Key) : Prop :=
  ∃ e : Create S, e.session ≠ s ∧ site.timely F e = true ∧ create F e site = some site'

variable (F s) in
/-- What holds wherever the rotation stands: every row opens under the keys of the
    file, and will when the creations commit. -/
def Sound (site : Site S Key) : Prop :=
  ∃ n keys under flight, Phase F s n site.server.fileKeys keys under flight site ∧
    ∀ t, (F.opens under t).isSome = true → (F.opens site.server.fileKeys t).isSome = true

variable {n : ℕ} {file keys under flight : List Text}

theorem stable_phase : Stable (Beside F s) (Phase F s n file keys under flight) := by
  rintro st st' h ⟨e, he, ht, hstep⟩
  exact h.create he ht hstep

omit [DecidableEq S] in
theorem Phase.sound (h : Phase F s n file keys under flight site)
    (hsub : ∀ t, (F.opens under t).isSome = true → (F.opens file t).isSome = true) :
    Sound F s site := by
  refine ⟨n, keys, under, flight, ?_, ?_⟩
  · rw [h.fileKeys]
    exact h
  · rw [h.fileKeys]
    exact hsub

theorem stable_sound : Stable (Beside F s) (Sound F s) := by
  rintro st st' ⟨n, keys, under, flight, h, hsub⟩ ⟨e, he, ht, hstep⟩
  have h' := h.create he ht hstep
  exact h'.sound hsub

omit [DecidableEq S] in
theorem Sound.opens (h : Sound F s site) {p : Pubkey} {t : Text}
    (ht : token site.server.table.committed p = some t) :
    (F.opens site.server.fileKeys t).isSome = true := by
  obtain ⟨n, keys, under, flight, h, hsub⟩ := h
  exact hsub t (h.committed p t ht)

/-- The rotation ends a transaction, one way or the other. -/
theorem Phase.endTx (h : Phase F s n file keys under flight site) :
    Phase F s n file keys under flight { site with server := site.server.endTx s } := by
  have hpend : ∀ j p v, Function.update site.server.table.pending s (fun _ => none) j p = some v →
      j ≠ s ∧ site.server.table.pending j p = some v := by
    intro j p v hv
    by_cases hj : j = s
    · rw [hj, Function.update_self] at hv
      cases hv
    · rw [Function.update_of_ne hj] at hv
      exact ⟨hj, hv⟩
  refine { h with own := fun p row t hp ht => ?_, held := fun j p v hj hp => ?_, scanned := fun p hp => ?_ }
  · exact absurd rfl (hpend s p _ hp).1
  · exact h.held j p v hj (hpend j p v hp).2
  · refine h.scanned p (hp.imp id ?_)
    rintro ⟨j, hj⟩
    obtain ⟨v, hv⟩ := Option.ne_none_iff_exists'.1 hj
    exact ⟨j, by rw [(hpend j p v hv).2]; simp⟩

theorem Phase.commitTx (h : Phase F s n file keys under flight site) :
    Phase F s n file keys under flight { site with server := site.server.commitTx s } := by
  have hend := h.endTx
  refine { hend with committed := fun p t ht => h.viewed ht, scanned := fun p hp => ?_ }
  rcases hp with hp | hp
  · have hp' : site.server.table.view s p ≠ none := hp
    by_cases hpend : site.server.table.pending s p = none
    · rw [TxTable.view_eq_committed hpend] at hp'
      exact h.scanned p (Or.inl hp')
    · exact h.scanned p (Or.inr ⟨s, hpend⟩)
  · exact hend.scanned p (Or.inr hp)

theorem Sound.endTx (h : Sound F s site) :
    Sound F s { site with server := site.server.endTx s } := by
  obtain ⟨n, keys, under, flight, h, hsub⟩ := h
  exact h.endTx.sound hsub

/-! ### Commands -/

variable {Q : Site S Key → Prop}

/-- A command, with what holds before it and after it. -/
theorem relies_await {c : Cmd Key} {P : Site S Key → Prop} {R : c.Val → Site S Key → Prop}
    (hst : Stable (Beside F s) P) (hst' : ∀ v, Stable (Beside F s) (R v))
    (hI : ∀ site, P site → Sound F s site) (hI' : ∀ v site, R v site → Sound F s site)
    (heff : ∀ (ω : Outside F) site v server, P site → effect s c site.server ω = some (v, server) →
      R v { site with server := server, scans := site.scans + scanned c (.ok v) } ∧
        Sound F s { site with server := server })
    (hP : P site) :
    (await c).Relies (siteExec (F := F)) s (Beside F s) (Sound F s) R site := by
  refine relies_op hst hP hI fun site ω r hP hr => ?_
  unfold siteExec exec at hr
  cases hf : ω.fault with
  | none =>
    simp only [hf, Option.map_map, Option.map_eq_some_iff] at hr
    obtain ⟨⟨v, server⟩, he, rfl⟩ := hr
    exact relies_ret (hst' v) (heff ω site v server hP he).1 fun _ h => h
  | some fault =>
    cases fault with
    | before e =>
      simp only [hf, Option.map_some, Option.some.injEq] at hr
      subst hr
      refine relies_raise stable_sound ?_ fun _ h => h
      have hzero : scanned c (.error e) = 0 := by cases c <;> rfl
      simp only [hzero, Nat.add_zero]
      exact hI site hP
    | after e =>
      simp only [hf, Option.map_map, Option.map_eq_some_iff] at hr
      obtain ⟨⟨v, server⟩, he, rfl⟩ := hr
      refine relies_raise stable_sound ?_ fun _ h => h
      have hzero : scanned c (.error e) = 0 := by cases c <;> rfl
      simp only [Function.comp, hzero, Nat.add_zero]
      exact (heff ω site v server hP he).2

/-- A session of the database: what its body leaves is committed. -/
theorem relies_dbSession {α : Type} {body : Act Key α} {P P' : α → Site S Key → Prop}
    (hst : ∀ a, Stable (Beside F s) (P a)) (hst' : ∀ a, Stable (Beside F s) (P' a))
    (hI : ∀ a site, P a site → Sound F s site) (hI' : ∀ a site, P' a site → Sound F s site)
    (hcommit : ∀ a site, P a site → P' a { site with server := site.server.commitTx s })
    (hend : ∀ a site, P' a site → P' a { site with server := site.server.endTx s })
    (h : body.Relies (siteExec (F := F)) s (Beside F s) (Sound F s) P site) :
    (dbSession body).Relies (siteExec (F := F)) s (Beside F s) (Sound F s) P' site := by
  have hclose : ∀ site, Sound F s site →
      (await .close).Relies (siteExec (F := F)) s (Beside F s) (Sound F s)
        (fun _ => Sound F s) site := by
    intro site hs
    refine relies_await stable_sound (fun _ => stable_sound) (fun _ h => h) (fun _ _ h => h) ?_ hs
    intro ω site v server hs he
    cases he
    exact ⟨hs.endTx, hs.endTx⟩
  refine relies_tryFinally stable_sound hst'
    (relies_tryCatch ?_ (relies_bind (h.mono fun a site hP => ?_))) hclose
  · intro e site hs
    split_ifs
    · refine relies_bind ?_
      refine (relies_await (R := fun _ => Sound F s) stable_sound (fun _ => stable_sound)
        (fun _ h => h) (fun _ _ h => h) ?_ hs).mono
        fun _ site' h' => relies_raise stable_sound h' fun _ h => h
      intro ω site v server hs he
      cases he
      exact ⟨hs.endTx, hs.endTx⟩
    · exact relies_raise stable_sound hs fun _ h => h
  · refine relies_bind ?_
    refine (relies_await (R := fun _ => P' a) (hst a) (fun _ => hst' a) (hI a)
      (fun _ => hI' a) ?_ hP).mono fun _ site' h' => ?_
    · intro ω site v server hP he
      cases he
      exact ⟨hcommit a site hP, hI' a _ (hcommit a site hP)⟩
    · refine relies_ret (hst' a) h' fun site'' h'' => ?_
      refine relies_await (hst' a) (fun _ => hst' a) (hI' a) (fun _ => hI' a) ?_ h''
      intro ω site v server hP he
      cases he
      exact ⟨hend a site hP, hI' a _ (hend a site hP)⟩

/-! ### Between the phases -/

omit [DecidableEq S] in
/-- The same state, known to less. -/
theorem Phase.weaken (h : Phase F s n file keys under flight site) {under' flight' : List Text}
    (hunder : ∀ t, (F.opens under t).isSome = true → (F.opens under' t).isSome = true)
    (hflight : ∀ t, (F.opens flight t).isSome = true → (F.opens flight' t).isSome = true)
    (htimely : ∀ t, (F.opens flight' t).isSome = true →
      (n < 3 ∨ (F.opens (keys.take 1) t).isSome = true) → (F.opens under' t).isSome = true) :
    Phase F s n file keys under' flight' site :=
  { h with
    fresh := by
      obtain ⟨mf, hmf, hopens⟩ := h.fresh
      exact ⟨mf, hmf, fun r m => hflight _ (hopens r m)⟩
    committed := fun p t ht => hunder t (h.committed p t ht)
    own := fun p row t hp ht => hunder t (h.own p row t hp ht)
    made := fun i row t hrow ht => hflight t (h.made i row t hrow ht)
    timely := htimely }

omit [DecidableEq S] in
theorem Phase.replaceFile (h : Phase F s n file keys under flight site) {file' : List Text}
    (hkeys : ∀ k ∈ file', IsKeyText k) :
    Phase F s n file' keys under flight
      { site with server := { site.server with file := some (joinKeys file') } } :=
  { h with fileKeys := readKeys_joinKeys hkeys }

/-- The rotation writes a row. -/
theorem Phase.update (h : Phase F s n file keys under flight site) {p : Pubkey} {t : Text}
    {T : TxTable S Pubkey Row} (ht : (F.opens under t).isSome = true)
    (hT : site.server.table.modify s p (fun row => { row with encryptedNsec := some t }) = some T) :
    Phase F s n file keys under flight
      { site with server := { site.server with table := T } } := by
  rcases TxTable.modify_cases hT with ⟨-, rfl⟩ | ⟨row, hrow, -, rfl⟩
  · exact h
  · have hwrite : ∀ j q v, (site.server.table.write s p (some { row with encryptedNsec := some t })).pending
        j q = some v → site.server.table.pending j q = some v ∨
          (j = s ∧ q = p ∧ v = some { row with encryptedNsec := some t }) := by
      intro j q v hv
      have hv' : Function.update site.server.table.pending s
        (Function.update (site.server.table.pending s) p
          (some (some { row with encryptedNsec := some t }))) j q = some v := hv
      by_cases hj : j = s
      · rw [hj, Function.update_self] at hv'
        by_cases hq : q = p
        · rw [hq, Function.update_self] at hv'
          exact Or.inr ⟨hj, hq, (Option.some.inj hv').symm⟩
        · rw [Function.update_of_ne hq] at hv'
          exact Or.inl (hj ▸ hv')
      · rw [Function.update_of_ne hj] at hv'
        exact Or.inl hv'
    have hmem : p ∈ site.server.pubkeys := by
      refine h.scanned p ?_
      by_cases hpend : site.server.table.pending s p = none
      · rw [TxTable.view_eq_committed hpend] at hrow
        exact Or.inl (by rw [hrow]; simp)
      · exact Or.inr ⟨s, hpend⟩
    refine { h with own := fun q row' t' hq ht' => ?_, held := fun j q v hj hq => ?_, scanned := fun q hq => ?_ }
    · rcases hwrite s q _ hq with hq | ⟨-, -, hv⟩
      · exact h.own q row' t' hq ht'
      · cases hv
        cases ht'
        exact ht
    · rcases hwrite j q v hq with hq | ⟨hjs, -, -⟩
      · exact h.held j q v hj hq
      · exact absurd hjs hj
    · rcases hq with hq | ⟨j, hj⟩
      · exact h.scanned q (Or.inl hq)
      · obtain ⟨v, hv⟩ := Option.ne_none_iff_exists'.1 hj
        rcases hwrite j q v hv with hv | ⟨-, rfl, -⟩
        · exact h.scanned q (Or.inr ⟨j, by rw [hv]; simp⟩)
        · exact hmem

variable (s) in
/-- The rotation has written nothing since its last commit. -/
def Idle (site : Site S Key) : Prop := ∀ p, site.server.table.pending s p = none

theorem stable_idle : Stable (Beside F s) (Idle s : Site S Key → Prop) := by
  rintro site site' h ⟨e, he, -, hstep⟩ p
  have hrollback : ∀ {j : S}, j ≠ s →
      Function.update site.server.table.pending j (fun _ => none) s p = none := by
    intro j hj
    rw [Function.update_of_ne (Ne.symm hj)]
    exact h p
  cases e with
  | lookup i pubkey =>
    simp only [Nsec.create] at hstep
    split_ifs at hstep
    · cases hstep
      exact h p
    · cases hstep
      exact h p
  | encrypt i nsec salt =>
    simp only [Nsec.create] at hstep
    split at hstep
    · cases hstep
      exact h p
    · cases hstep
  | flush i =>
    simp only [Nsec.create] at hstep
    split at hstep
    · rename_i pubkey row hmade
      by_cases hfree : (!site.server.table.free i pubkey) = true
      · rw [if_pos hfree] at hstep
        cases hstep
      · rw [if_neg hfree] at hstep
        by_cases hview : site.server.table.view i pubkey = none
        · rw [if_pos hview] at hstep
          cases hstep
          have hne : s ≠ i := Ne.symm he
          show Function.update site.server.table.pending i _ s p = none
          rw [Function.update_of_ne hne]
          exact h p
        · rw [if_neg hview] at hstep
          cases hstep
          exact hrollback he
    · cases hstep
  | commit i =>
    simp only [Nsec.create] at hstep
    split at hstep
    · cases hstep
      exact hrollback he
    · cases hstep
  | rollback i =>
    cases hstep
    exact hrollback he

theorem idle_endTx (site : Site S Key) : Idle s { site with server := site.server.endTx s } := by
  intro p
  show Function.update site.server.table.pending s (fun _ => none) s p = none
  rw [Function.update_self]

theorem idle_commitTx (site : Site S Key) : Idle s { site with server := site.server.commitTx s } := by
  intro p
  show Function.update site.server.table.pending s (fun _ => none) s p = none
  rw [Function.update_self]

omit [DecidableEq S] in
/-- A scan by an idle rotation finds every committed token. -/
theorem Phase.mem_encrypted (h : Phase F s n file keys under flight site) (hidle : Idle s site)
    {p : Pubkey} {t : Text} (ht : token site.server.table.committed p = some t) :
    (p, t) ∈ site.server.encrypted s := by
  refine Nsec.mem_encrypted.2 ⟨h.scanned p (Or.inl fun hp => ?_), ?_⟩
  · simp [token, hp] at ht
  · unfold token at ht ⊢
    rwa [TxTable.view_eq_committed (hidle p)]

/-! ### The functions of the rotation -/

theorem relies_makeMultiFernet {texts : List Text} {P : Site S Key → Prop}
    (hst : Stable (Beside F s) P) (hI : ∀ site, P site → Sound F s site) (hP : P site) :
    (makeMultiFernet F texts).Relies (siteExec (F := F)) s (Beside F s) (Sound F s)
      (fun mf site => P site ∧ F.multiFernet texts = some mf) site := by
  unfold makeMultiFernet
  split
  · rename_i mf hmf
    exact relies_ret hst hP fun _ h => ⟨h, hmf⟩
  · exact relies_raise hst hP hI

/-- `load_keys_from_file`. -/
theorem relies_loadKeysFromFile (hsub : ∀ t, (F.opens under t).isSome = true →
      (F.opens file t).isSome = true)
    (htexts : ∀ k ∈ file, IsKeyText k) (hne : file ≠ [])
    (hfresh : ∀ mf, F.multiFernet file = some mf →
      ∀ r m, (F.opens flight (F.encryptMulti mf r m)).isSome = true)
    (htimely : ∀ t, (F.opens flight t).isSome = true →
      (n < 3 ∨ (F.opens (file.take 1) t).isSome = true) → (F.opens under t).isSome = true)
    (h : Phase F s n file keys under flight site) :
    (loadKeysFromFile F).Relies (siteExec (F := F)) s (Beside F s) (Sound F s)
      (fun _ site => Phase F s n file file under flight site) site := by
  refine relies_bind ((relies_await (P := Phase F s n file keys under flight)
    (R := fun v site => Phase F s n file keys under flight site ∧ readKeys v = file)
    stable_phase (fun v => stable_phase.and_const) (fun _ h => h.sound hsub)
    (fun _ _ h => h.1.sound hsub) ?_ h).mono fun v site hv => ?_)
  · intro ω site v server hP he
    cases he
    exact ⟨⟨hP, hP.fileKeys⟩, hP.sound hsub⟩
  obtain ⟨hphase, hread⟩ := hv
  have hset : ∀ (ω : Outside F) site v server, Phase F s n file keys under flight site →
      effect s (.setKeys (readKeys v)) site.server ω = some ((), server) → readKeys v = file →
      Phase F s n file file under flight { site with server := server } := by
    intro ω site v server hP he hread
    cases he
    rw [hread]
    exact { hP with loaded := rfl, texts := htexts, timely := htimely }
  refine relies_bind ((relies_await (R := fun _ => Phase F s n file file under flight)
    stable_phase (fun _ => stable_phase) (fun _ h => h.sound hsub) (fun _ _ h => h.sound hsub)
    ?_ hphase).mono fun _ site hP => ?_)
  · intro ω site u server hP he
    have hkeys := hset ω site v server hP he hread
    exact ⟨hkeys, hkeys.sound hsub⟩
  rw [hread, if_neg hne]
  refine relies_bind ((relies_makeMultiFernet stable_phase (fun _ h => h.sound hsub) hP).mono
    fun mf site hmf => ?_)
  obtain ⟨hP, hmf⟩ := hmf
  refine relies_bind ((relies_await (R := fun _ => Phase F s n file file under flight) stable_phase
    (fun _ => stable_phase) (fun _ h => h.sound hsub) (fun _ _ h => h.sound hsub) ?_ hP).mono
    fun _ site hP => ?_)
  · intro ω site u server hP he
    cases he
    have hnew : Phase F s n file file under flight
        { site with server := { site.server with mf := some mf } } :=
      { hP with fresh := ⟨mf, rfl, hfresh mf hmf⟩ }
    exact ⟨hnew, hnew.sound hsub⟩
  · exact relies_ret stable_phase hP fun _ h => h

variable (F) in
/-- What the scan of an idle rotation has shown when it met `rows`: if all of them
    open under `texts`, so does what is committed then and what is committed later. -/
def Shown (n : ℕ) (file keys flight texts : List Text) (rows : List (Pubkey × Text))
    (site : Site S Key) : Prop :=
  (∀ r ∈ rows, (F.opens texts r.2).isSome = true) →
    (∀ t, (F.opens flight t).isSome = true →
      (n < 3 ∨ (F.opens (keys.take 1) t).isSome = true) → (F.opens texts t).isSome = true) →
    Phase F s n file keys texts flight site

/-- `_verify_with`. -/
theorem relies_verifyWith {mf : MultiFernet Key} {texts : List Text}
    (hmf : F.multiFernet texts = some mf)
    (hsub : ∀ t, (F.opens under t).isSome = true → (F.opens file t).isSome = true)
    (htimely : ∀ t, (F.opens flight t).isSome = true →
      (n + 1 < 3 ∨ (F.opens (keys.take 1) t).isSome = true) → (F.opens under t).isSome = true)
    (h : Phase F s n file keys under flight site) (hidle : Idle s site) :
    (verifyWith F mf).Relies (siteExec (F := F)) s (Beside F s) (Sound F s)
      (fun v site => ∃ rows, Phase F s (n + 1) file keys under flight site ∧ Idle s site ∧
        Shown F (s := s) (n + 1) file keys flight texts rows site ∧
        (v.fail = 0 → ∀ r ∈ rows, (F.opens texts r.2).isSome = true)) site := by
  have hst : ∀ rows, Stable (Beside F s) fun site => Phase F s (n + 1) file keys under flight site ∧
      Idle s site ∧ Shown F (s := s) (n + 1) file keys flight texts rows site :=
    fun rows => stable_phase.and (stable_idle.and stable_phase.imp.imp)
  refine relies_bind ((relies_dbSession (P := fun rows site =>
      Phase F s (n + 1) file keys under flight site ∧ Idle s site ∧
        Shown F (s := s) (n + 1) file keys flight texts rows site) hst hst
    (fun _ _ h => h.1.sound hsub) (fun _ _ h => h.1.sound hsub) ?_ ?_ ?_).mono fun rows site h => ?_)
  · rintro rows site ⟨hP, -, hall⟩
    exact ⟨hP.commitTx, idle_commitTx site, fun hrows ht => (hall hrows ht).commitTx⟩
  · rintro rows site ⟨hP, -, hall⟩
    exact ⟨hP.endTx, idle_endTx site, fun hrows ht => (hall hrows ht).endTx⟩
  · refine relies_await (stable_phase.and stable_idle) hst (fun _ h => h.1.sound hsub)
      (fun _ _ h => h.1.sound hsub) ?_ ⟨h, hidle⟩
    rintro ω site rows server ⟨hP, hidle⟩ he
    cases he
    have hnext : Phase F s (n + 1) file keys under flight
        { site with scans := site.scans + 1 } :=
      { hP with count := congrArg (· + 1) hP.count, timely := htimely }
    refine ⟨⟨hnext, hidle, fun hrows ht => ?_⟩, hP.sound hsub⟩
    exact { hnext with
      committed := fun p t htok => hrows (p, t) (hP.mem_encrypted hidle htok)
      own := by
        intro p row t hp
        have hp' : site.server.table.pending s p = some (some row) := hp
        rw [hidle p] at hp'
        cases hp'
      timely := ht }
  · refine relies_ret (hst rows) h fun site h => ⟨rows, h.1, h.2.1, h.2.2, fun hfail r hr => ?_⟩
    have hnone := List.countP_eq_zero.1 hfail r hr
    unfold Fernet.opens
    rw [hmf, Option.bind_some]
    simpa [Option.isSome_iff_ne_none] using hnone

/-- The loop of `_reencrypt_all`. -/
theorem relies_reencryptRows {mf : MultiFernet Key}
    (hsub : ∀ t, (F.opens under t).isSome = true → (F.opens file t).isSome = true)
    (hfresh : ∀ r m, (F.opens under (F.encryptMulti mf r m)).isSome = true) :
    ∀ {rows : List (Pubkey × Text)} {site : Site S Key}, Phase F s n file keys under flight site →
      (reencryptRows F mf rows).Relies (siteExec (F := F)) s (Beside F s) (Sound F s)
        (fun _ => Phase F s n file keys under flight) site := by
  intro rows
  induction rows with
  | nil =>
    intro site h
    exact relies_ret stable_phase h fun _ h => h
  | cons r rows ih =>
    intro site h
    obtain ⟨pubkey, ciphertext⟩ := r
    unfold reencryptRows
    split
    · exact relies_raise stable_phase h fun _ h => h.sound hsub
    · rename_i plaintext hdec
      refine relies_bind ((relies_await (R := fun _ => Phase F s n file keys under flight)
        stable_phase (fun _ => stable_phase) (fun _ h => h.sound hsub) (fun _ _ h => h.sound hsub)
        ?_ h).mono fun salt site h => ?_)
      · intro ω site salt server hP he
        cases he
        exact ⟨hP, hP.sound hsub⟩
      refine relies_bind ((relies_await (R := fun _ => Phase F s n file keys under flight)
        stable_phase (fun _ => stable_phase) (fun _ h => h.sound hsub) (fun _ _ h => h.sound hsub)
        ?_ h).mono fun _ site h => ?_)
      · intro ω site u server hP he
        obtain ⟨T, hT, hserver⟩ := Option.map_eq_some_iff.1 he
        cases hserver
        have hnew := hP.update (hfresh salt plaintext) hT
        exact ⟨hnew, hnew.sound hsub⟩
      refine relies_bind ((ih h).mono fun updated site h => ?_)
      exact relies_ret stable_phase h fun _ h => h

/-- `_reencrypt_all`. -/
theorem relies_reencryptAll {mf : MultiFernet Key}
    (hsub : ∀ t, (F.opens under t).isSome = true → (F.opens file t).isSome = true)
    (htimely : ∀ t, (F.opens flight t).isSome = true →
      (n + 1 < 3 ∨ (F.opens (keys.take 1) t).isSome = true) → (F.opens under t).isSome = true)
    (hfresh : ∀ r m, (F.opens under (F.encryptMulti mf r m)).isSome = true)
    (h : Phase F s n file keys under flight site) :
    (reencryptAll F mf).Relies (siteExec (F := F)) s (Beside F s) (Sound F s)
      (fun _ site => Phase F s (n + 1) file keys under flight site ∧ Idle s site) site := by
  refine relies_dbSession (P := fun _ => Phase F s (n + 1) file keys under flight)
    (fun _ => stable_phase) (fun _ => stable_phase.and stable_idle) (fun _ _ h => h.sound hsub)
    (fun _ _ h => h.1.sound hsub) (fun _ site h => ⟨h.commitTx, idle_commitTx site⟩)
    (fun _ site h => ⟨h.1.endTx, idle_endTx site⟩) ?_
  refine relies_bind ((relies_await (R := fun _ => Phase F s (n + 1) file keys under flight)
    stable_phase (fun _ => stable_phase) (fun _ h => h.sound hsub) (fun _ _ h => h.sound hsub)
    ?_ h).mono fun rows site h => relies_reencryptRows hsub hfresh h)
  intro ω site rows server hP he
  cases he
  exact ⟨{ hP with count := congrArg (· + 1) hP.count, timely := htimely }, hP.sound hsub⟩

/-- `write_keys_to_file`. -/
theorem relies_writeKeysToFile (file' : List Text) (hkeys : ∀ k ∈ file', IsKeyText k)
    (hsub : ∀ t, (F.opens under t).isSome = true → (F.opens file t).isSome = true)
    (hsub' : ∀ t, (F.opens under t).isSome = true → (F.opens file' t).isSome = true)
    (h : Phase F s n file keys under flight site) :
    (writeKeysToFile file').Relies (siteExec (F := F)) s (Beside F s) (Sound F s)
      (fun _ => Phase F s n file' keys under flight) site := by
  refine relies_await stable_phase (fun _ => stable_phase) (fun _ h => h.sound hsub)
    (fun _ _ h => h.sound hsub') ?_ h
  intro ω site u server hP he
  cases he
  have hnew := hP.replaceFile hkeys
  exact ⟨hnew, hnew.sound hsub'⟩

omit [DecidableEq S] in
theorem opens_of_subset {keys keys' : List Text} (hsub : keys ⊆ keys')
    (hall : ∀ k ∈ keys', (F.ofText k).isSome) (t : Text) (ht : (F.opens keys t).isSome = true) :
    (F.opens keys' t).isSome = true := by
  obtain ⟨m, hm⟩ := Option.isSome_iff_exists.1 ht
  rw [Fernet.opens_mono hm hsub hall]
  rfl

/-- `rotate_key` from the dual-key write on. -/
theorem relies_replaceKey {old : Text} {others : List Text} (g : GeneratedKey F)
    (htexts : ∀ k ∈ old :: others, IsKeyText k)
    (hspells : ∀ k ∈ old :: others, (F.ofText k).isSome)
    (h : Phase F s 1 (old :: others) (old :: others) [old] [old] site) :
    (replaceKey F old g.text).Relies (siteExec (F := F)) s (Beside F s) (Sound F s)
      (fun _ => Sound F s) site := by
  have hold : ∀ t, (F.opens [old] t).isSome = true → (F.opens (old :: others) t).isSome = true :=
    opens_of_subset (by simp) hspells
  have hboth : ∀ k ∈ [g.text, old], (F.ofText k).isSome := by
    intro k hk
    rcases List.mem_cons.1 hk with rfl | hk
    · exact g.spells
    · exact hspells k (List.mem_singleton.1 hk ▸ List.mem_cons_self)
  have hkeys : ∀ k ∈ [g.text, old], IsKeyText k := by
    intro k hk
    rcases List.mem_cons.1 hk with rfl | hk
    · exact g.isKeyText
    · exact htexts k (List.mem_singleton.1 hk ▸ List.mem_cons_self)
  have holdBoth : ∀ t, (F.opens [old] t).isSome = true → (F.opens [g.text, old] t).isSome = true :=
    opens_of_subset (by simp) hboth
  have hnewBoth : ∀ t, (F.opens [g.text] t).isSome = true → (F.opens [g.text, old] t).isSome = true :=
    opens_of_subset (by simp) hboth
  have hfresh : ∀ {ks : List Text} {mf}, F.multiFernet (g.text :: ks) = some mf →
      ∀ r m, (F.opens [g.text, old] (F.encryptMulti mf r m)).isSome = true := by
    intro ks mf hmf r m
    exact hnewBoth _ (by rw [Fernet.opens_encryptMulti hmf r m]; rfl)
  refine relies_bind ((relies_writeKeysToFile _ hkeys hold holdBoth h).mono fun _ site h => ?_)
  have h' : Phase F s 1 [g.text, old] (old :: others) [g.text, old] [g.text, old] site :=
    h.weaken holdBoth holdBoth fun t ht _ => ht
  refine relies_bind ((relies_loadKeysFromFile (fun _ ht => ht) hkeys (by simp)
    (fun mf hmf => hfresh hmf) (fun t ht _ => ht) h').mono fun _ site h => ?_)
  refine relies_bind ((relies_makeMultiFernet stable_phase (fun _ h => h.sound fun _ ht => ht) h).mono
    fun both site h => ?_)
  refine relies_bind ((relies_reencryptAll (fun _ ht => ht) (fun t ht _ => ht) (hfresh h.2) h.1).mono
    fun _ site h => ?_)
  refine relies_bind ((relies_makeMultiFernet (stable_phase.and stable_idle)
    (fun _ h => h.1.sound fun _ ht => ht) h).mono fun newOnly site h => ?_)
  obtain ⟨⟨hP, hidle⟩, hnewOnly⟩ := h
  refine relies_bind ((relies_verifyWith hnewOnly (fun _ ht => ht) (fun t ht _ => ht) hP hidle).mono
    fun post site h => ?_)
  obtain ⟨rows, hP, -, hshown, hfail⟩ := h
  split_ifs with hpost
  · exact relies_raise stable_phase hP fun _ h => h.sound fun _ ht => ht
  · -- nothing is left under the old key alone, and creations use the new one
    have hdone : Phase F s 3 [g.text, old] [g.text, old] [g.text] [g.text, old] site := by
      refine hshown (hfail (Nat.eq_zero_of_not_pos hpost)) fun t _ hcond => ?_
      exact hcond.resolve_left (lt_irrefl 3)
    refine relies_bind ((relies_writeKeysToFile [g.text] ?_ hnewBoth (fun _ ht => ht)
      hdone).mono fun _ site h => ?_)
    · intro k hk
      exact hkeys k (List.mem_singleton.1 hk ▸ List.mem_cons_self)
    refine relies_bind ((relies_loadKeysFromFile (fun _ ht => ht) ?_ (by simp)
      (fun mf hmf => hfresh hmf) ?_ h).mono fun _ site h => ?_)
    · intro k hk
      exact hkeys k (List.mem_singleton.1 hk ▸ List.mem_cons_self)
    · exact fun t _ hcond => hcond.resolve_left (lt_irrefl 3)
    · exact relies_ret stable_phase h fun _ h => h.sound fun _ ht => ht

/-- `rotate_key`. -/
theorem relies_rotateKey {old : Text} {others : List Text}
    (hspells : ∀ k ∈ old :: others, (F.ofText k).isSome)
    (h : Phase F s 0 (old :: others) (old :: others) [old] [old] site) (hidle : Idle s site) :
    (rotateKey F).Relies (siteExec (F := F)) s (Beside F s) (Sound F s) (fun _ => Sound F s) site := by
  have hold : ∀ t, (F.opens [old] t).isSome = true → (F.opens (old :: others) t).isSome = true :=
    opens_of_subset (by simp) hspells
  refine relies_bind ((relies_await (R := fun ks site =>
      (Phase F s 0 (old :: others) (old :: others) [old] [old] site ∧ Idle s site) ∧
        ks = old :: others)
    (stable_phase.and stable_idle) (fun _ => (stable_phase.and stable_idle).and_const)
    (fun _ h => h.1.sound hold) (fun _ _ h => h.1.1.sound hold) ?_ ⟨h, hidle⟩).mono
    fun ks site h => ?_)
  · rintro ω site ks server ⟨hP, hidle⟩ he
    cases he
    exact ⟨⟨⟨hP, hidle⟩, hP.loaded⟩, hP.sound hold⟩
  obtain ⟨h, rfl⟩ := h
  refine relies_bind ((relies_makeMultiFernet (stable_phase.and stable_idle)
    (fun _ h => h.1.sound hold) h).mono fun mf site h => ?_)
  obtain ⟨⟨hP, hidle⟩, hmf⟩ := h
  refine relies_bind ((relies_verifyWith hmf hold (fun t ht _ => ht) hP hidle).mono
    fun pre site h => ?_)
  obtain ⟨rows, hP, -⟩ := h
  split_ifs
  · exact relies_raise stable_phase hP fun _ h => h.sound hold
  · refine relies_bind ((relies_await (R := fun key site =>
        Phase F s 1 (old :: others) (old :: others) [old] [old] site ∧
          ∃ g : GeneratedKey F, key = g.text)
      stable_phase (fun _ => stable_phase.and_const) (fun _ h => h.sound hold)
      (fun _ _ h => h.1.sound hold) ?_ hP).mono fun key site h => ?_)
    · intro ω site key server hP he
      cases he
      exact ⟨⟨hP, ω.key, rfl⟩, hP.sound hold⟩
    · obtain ⟨hP, g, rfl⟩ := h
      exact relies_replaceKey g (fun k hk => hP.texts k hk) hspells hP

/-! ## Runs -/

omit [DecidableEq S] in
/-- A site that starts, if the first key of its file opens every row. -/
theorem phase_loaded {file : Option Text} {rows : List (Pubkey × Row)} {mf : MultiFernet Key}
    {old : Text} {others : List Text} (hfile : readKeys file = old :: others)
    (hmf : F.multiFernet (old :: others) = some mf)
    (hrows : ∀ p t, token (rows.lookup ·) p = some t → (F.opens [old] t).isSome) :
    Phase F s 0 (old :: others) (old :: others) [old] [old] (Site.loaded file rows mf) where
  count := rfl
  fileKeys := hfile
  loaded := hfile
  texts k hk := isKeyText_of_mem_readKeys (hfile.symm ▸ hk)
  fresh := ⟨mf, rfl, fun r m => by rw [Fernet.opens_encryptMulti hmf r m]; rfl⟩
  committed := hrows
  own p row t hp := by cases hp
  made i row t hrow := by cases hrow
  held i p v _ hp := by cases hp
  scanned p hp := by
    rcases hp with hp | ⟨i, hi⟩
    · obtain ⟨row, hrow⟩ := Option.ne_none_iff_exists'.1 hp
      have hlookup : rows.lookup p = some row := hrow
      obtain ⟨l₁, l₂, hl, -⟩ := List.lookup_eq_some_iff.1 hlookup
      exact List.mem_map.2 ⟨(p, row), by rw [hl]; simp, rfl⟩
    · exact absurd rfl hi
  timely _ ht _ := ht

/-- One step of the whole keeps what the rotation relies on. -/
theorem relies_timelyBeside {e : Event S F} {st st' : Act Key Unit × Site S Key}
    (h : st.1.Relies (siteExec (F := F)) s (Beside F s) (Sound F s) (fun _ => Sound F s) st.2)
    (hstep : timelyBeside s e st = some st') :
    st'.1.Relies (siteExec (F := F)) s (Beside F s) (Sound F s) (fun _ => Sound F s) st'.2 := by
  obtain ⟨prog, site⟩ := st
  cases e with
  | rotate ω =>
    cases prog with
    | ret a => cases hstep
    | raise e => cases hstep
    | op c k =>
      obtain ⟨r, hr, rfl⟩ := Option.map_eq_some_iff.1 hstep
      exact h.own hr
  | create e =>
    simp only [timelyBeside, beside] at hstep
    by_cases htimely : site.timely F e = true
    · rw [if_pos htimely] at hstep
      by_cases he : e.session = s
      · rw [if_pos he] at hstep
        cases hstep
      · rw [if_neg he] at hstep
        obtain ⟨site', hsite, rfl⟩ := Option.map_eq_some_iff.1 hstep
        exact h.others ⟨e, he, htimely, hsite⟩
    · rw [if_neg htimely] at hstep
      cases hstep

end

/-- **No creation loses its secret to a rotation** if what commits after the
    rotation's last scan is under the key that is then loaded first, and the first key
    of the file opened every row to begin with.  The rotation may fail anywhere; in
    every state of every run the keys of the file open every committed row. -/
theorem rotation_beside_creations [DecidableEq S] (F : Fernet Key) (s : S) (file : Option Text)
    (rows : List (Pubkey × Row)) (mf : MultiFernet Key) (es : List (Event S F))
    (st : Act Key Unit × Site S Key) (hmf : F.multiFernet (readKeys file) = some mf)
    (hrows : ∀ p t, token (rows.lookup ·) p = some t → (F.opens ((readKeys file).take 1) t).isSome)
    (hrun : Machine.run (timelyBeside s) es (rotateKey F, Site.loaded file rows mf) = some st)
    (p : Pubkey) (t : Text) (ht : token st.2.server.table.committed p = some t) :
    (F.opens st.2.server.fileKeys t).isSome = true := by
  cases hfile : readKeys file with
  | nil =>
    rw [hfile] at hmf
    cases hmf
  | cons old others =>
    rw [hfile] at hmf hrows
    have hstart : (rotateKey F).Relies (siteExec (F := F)) s (Beside F s) (Sound F s)
        (fun _ => Sound F s) (Site.loaded file rows mf) :=
      relies_rotateKey (Fernet.multiFernet_spells hmf) (phase_loaded hfile hmf hrows) fun _ => rfl
    have hend := Machine.run_inv (I := fun st : Act Key Unit × Site S Key =>
        st.1.Relies (siteExec (F := F)) s (Beside F s) (Sound F s) (fun _ => Sound F s) st.2)
      (P := fun _ => True) (fun _ h hstep => relies_timelyBeside h hstep) (fun _ _ => trivial)
      hstart hrun
    exact (hend.inv fun _ _ h => h).opens ht

/-- `_mf` for the key `a`. -/
def sampleMf : MultiFernet { t : Text // ':' ∉ t } := ⟨⟨['a'], by simp⟩, []⟩

/-- The creation of an account up to its commit. -/
def creation : List (Event Bool sampleFernet) :=
  [.create (.lookup true "q"), .create (.encrypt true ['y'] 0), .create (.flush true)]

/-- The next `n` commands of a rotation to the key `b`. -/
def rotation (n : ℕ) : List (Event Bool sampleFernet) :=
  List.replicate n (.rotate (sampleOutside 'b' keyChar_b))

/-- An account is created, and its caller commits while a rotation verifies. -/
def timelyCommit : List (Event Bool sampleFernet) :=
  creation ++ rotation 2 ++ [Event.create (.commit true)] ++ rotation 21

theorem timelyCommit_opens : ∃ site t,
    Machine.run (timelyBeside false) timelyCommit
      (rotateKey sampleFernet, Site.loaded (some ['a']) sampleRows sampleMf) = some (.ret (), site) ∧
    site.server.fileKeys = [['b']] ∧ token site.server.table.committed "q" = some t ∧
    (sampleFernet.opens site.server.fileKeys t).isSome = true := by
  refine ⟨_, ['b', ':', 'y'], rfl, rfl, rfl, ?_⟩
  exact rotation_beside_creations sampleFernet false (some ['a']) sampleRows sampleMf timelyCommit _
    rfl sample_opens rfl "q" ['b', ':', 'y'] rfl

/-- An account is created, and its caller commits when a rotation is over. -/
def lateCommit : List (Event Bool sampleFernet) :=
  creation ++ rotation 21 ++ [Event.create (.commit true)]

/-- **A secret that is committed after the rotation is lost.**  The rotation has
    returned and the creation has committed, under a key that is no longer there. -/
theorem late_commit_strands : ∃ site,
    Machine.run (beside false) lateCommit
      (rotateKey sampleFernet, Site.loaded (some ['a']) sampleRows sampleMf) = some (.ret (), site) ∧
    (∀ i, site.creations i = .idle) ∧ site.server.fileKeys = [['b']] ∧
    token site.server.table.committed "q" = some ['a', ':', 'y'] ∧
    sampleFernet.opens site.server.fileKeys ['a', ':', 'y'] = none := by
  refine ⟨_, rfl, ?_, rfl, rfl, rfl⟩
  intro i
  cases i with
  | false => rfl
  | true => rfl

end Nsec

end BrainstormServer
