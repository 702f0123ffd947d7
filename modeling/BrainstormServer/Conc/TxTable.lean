/-
  A table of rows under read-committed isolation with row locks.

  `S` are the sessions, `κ` the primary keys, `ρ` the rows.  A session reads its
  own uncommitted writes over the committed rows (`view`).  A statement that
  writes a row, and `SELECT … FOR UPDATE`, wait for the session that holds the
  row and then hold it until that session commits or rolls back (`update`,
  `acquire`); the row written is computed from the latest committed one, as
  PostgreSQL does at this isolation level.

  `Owned` is the invariant of every reachable table: a session has written only
  rows it holds.  With it, the committed row of a key changes only by a commit
  of the session that holds it (`committed_commit_of_lock`).
-/
import Mathlib.Logic.Function.Basic
import Mathlib.Tactic.Common

namespace Conc

/-- A table: the committed rows, the uncommitted writes of each session
    (`some none` is a deletion), and the holder of each row. -/
structure TxTable (S κ ρ : Type) where
  committed : κ → Option ρ
  pending : S → κ → Option (Option ρ)
  lock : κ → Option S

namespace TxTable

variable {S κ ρ : Type}

/-- A table nobody is working on. -/
def ofRows (rows : κ → Option ρ) : TxTable S κ ρ := ⟨rows, fun _ _ => none, fun _ => none⟩

/-- What session `s` sees of the row `k`. -/
def view (t : TxTable S κ ρ) (s : S) (k : κ) : Option ρ := (t.pending s k).getD (t.committed k)

/-- A session has written only rows it holds. -/
def Owned (t : TxTable S κ ρ) : Prop := ∀ s k, t.pending s k ≠ none → t.lock k = some s

/-- Nobody but `s` is working on the table. -/
def Mine (t : TxTable S κ ρ) (s : S) : Prop := ∀ k, t.lock k = none ∨ t.lock k = some s

@[simp] theorem view_ofRows (rows : κ → Option ρ) (s : S) (k : κ) :
    (ofRows rows : TxTable S κ ρ).view s k = rows k := rfl

/-- Without uncommitted writes a session sees the committed row. -/
theorem view_eq_committed {t : TxTable S κ ρ} {s : S} {k : κ} (h : t.pending s k = none) :
    t.view s k = t.committed k := by
  simp [view, h]

/-- Where nothing is held, every session sees the committed rows. -/
theorem Owned.view_of_unlocked {t : TxTable S κ ρ} (ho : t.Owned) (hl : ∀ k, t.lock k = none)
    (s : S) : t.view s = t.committed := by
  ext1 k
  refine view_eq_committed (Classical.byContradiction fun hp => ?_)
  simpa [hl k] using ho s k hp

theorem owned_ofRows (rows : κ → Option ρ) : (ofRows rows : TxTable S κ ρ).Owned := by
  intro s k h
  simp [ofRows] at h

section
variable [DecidableEq S]

/-- Whether `s` need not wait for the row `k`. -/
def free (t : TxTable S κ ρ) (s : S) (k : κ) : Bool := t.lock k = none ∨ t.lock k = some s

/-- `COMMIT` of session `s`. -/
def commit (t : TxTable S κ ρ) (s : S) : TxTable S κ ρ where
  committed := t.view s
  pending := Function.update t.pending s fun _ => none
  lock k := if t.lock k = some s then none else t.lock k

/-- `ROLLBACK` of session `s`. -/
def rollback (t : TxTable S κ ρ) (s : S) : TxTable S κ ρ where
  committed := t.committed
  pending := Function.update t.pending s fun _ => none
  lock k := if t.lock k = some s then none else t.lock k

variable [DecidableEq κ]

/-- `s` takes the row lock of `k`. -/
def acquire (t : TxTable S κ ρ) (s : S) (k : κ) : TxTable S κ ρ :=
  { t with lock := Function.update t.lock k (some s) }

/-- `s` writes the row `k`, holding it. -/
def write (t : TxTable S κ ρ) (s : S) (k : κ) (v : Option ρ) : TxTable S κ ρ where
  committed := t.committed
  pending := Function.update t.pending s (Function.update (t.pending s) k (some v))
  lock := Function.update t.lock k (some s)

/-- A statement of `s` that rewrites the row `k`; `none` if `s` has to wait. -/
def update (t : TxTable S κ ρ) (s : S) (k : κ) (f : Option ρ → Option ρ) :
    Option (TxTable S κ ρ) :=
  if t.free s k then some (t.write s k (f (t.view s k))) else none

/-- `UPDATE … WHERE` the key is `k`: nothing happens if `s` sees no such row. -/
def modify (t : TxTable S κ ρ) (s : S) (k : κ) (f : ρ → ρ) : Option (TxTable S κ ρ) :=
  if (t.view s k).isNone then some t else t.update s k (Option.map f)

/-- Whether another session has written a row with `P` among `ks` and not yet
    ended its transaction. -/
def contended (t : TxTable S κ ρ) (s : S) (P : ρ → Bool) (ks : List κ) : Bool :=
  ks.any fun k => match t.lock k with
    | none => false
    | some s' => s' ≠ s ∧ ((t.pending s' k).bind id).any P = true

/-- `UPDATE` of the rows `ks`. -/
def modifyAll (t : TxTable S κ ρ) (s : S) (f : ρ → ρ) : List κ → Option (TxTable S κ ρ)
  | [] => some t
  | k :: ks => (t.modify s k f).bind fun t' => t'.modifyAll s f ks

/-! ## Reading -/

/-- After a write the session sees the new row and otherwise what it saw. -/
@[simp] theorem view_write (t : TxTable S κ ρ) (s : S) (k : κ) (v : Option ρ) :
    (t.write s k v).view s = Function.update (t.view s) k v := by
  ext1 k'
  by_cases hk : k' = k
  · simp [view, write, hk]
  · simp [view, write, hk]

omit [DecidableEq S] in
@[simp] theorem view_acquire (t : TxTable S κ ρ) (s s' : S) (k : κ) :
    (t.acquire s k).view s' = t.view s' := rfl

omit [DecidableEq κ] in
@[simp] theorem view_commit_self (t : TxTable S κ ρ) (s : S) : (t.commit s).view s = t.view s := by
  ext1 k
  simp [view, commit]

omit [DecidableEq κ] in
@[simp] theorem view_rollback_self (t : TxTable S κ ρ) (s : S) :
    (t.rollback s).view s = t.committed := by
  ext1 k
  simp [view, rollback]

/-! ## Commits -/

omit [DecidableEq κ] in
@[simp] theorem committed_commit (t : TxTable S κ ρ) (s : S) :
    (t.commit s).committed = t.view s := rfl

omit [DecidableEq κ] in
@[simp] theorem committed_rollback (t : TxTable S κ ρ) (s : S) :
    (t.rollback s).committed = t.committed := rfl

@[simp] theorem committed_write (t : TxTable S κ ρ) (s : S) (k : κ) (v : Option ρ) :
    (t.write s k v).committed = t.committed := rfl

omit [DecidableEq S] in
@[simp] theorem committed_acquire (t : TxTable S κ ρ) (s : S) (k : κ) :
    (t.acquire s k).committed = t.committed := rfl

theorem update_eq_some {t t' : TxTable S κ ρ} {s : S} {k : κ} {f : Option ρ → Option ρ} :
    t.update s k f = some t' ↔ t.free s k = true ∧ t' = t.write s k (f (t.view s k)) := by
  unfold update
  split_ifs with h
  · simp [h, eq_comm]
  · simp [h]

theorem modify_cases {t t' : TxTable S κ ρ} {s : S} {k : κ} {f : ρ → ρ}
    (h : t.modify s k f = some t') : (t.view s k = none ∧ t' = t) ∨
      ∃ row, t.view s k = some row ∧ t.free s k = true ∧ t' = t.write s k (some (f row)) := by
  unfold modify at h
  cases hv : t.view s k with
  | none =>
    rw [hv] at h
    exact Or.inl ⟨rfl, by simpa using h.symm⟩
  | some row =>
    rw [hv] at h
    obtain ⟨hf, rfl⟩ := update_eq_some.1 (by simpa using h)
    exact Or.inr ⟨row, rfl, hf, by rw [hv]; rfl⟩

theorem modify_view {t t' : TxTable S κ ρ} {s : S} {k : κ} {f : ρ → ρ}
    (h : t.modify s k f = some t') :
    t'.view s = Function.update (t.view s) k ((t.view s k).map f) := by
  rcases modify_cases h with ⟨hv, rfl⟩ | ⟨row, hv, -, rfl⟩
  · exact (Function.update_eq_self_iff.2 (by rw [hv]; rfl)).symm
  · rw [view_write, hv, Option.map_some]

/-- What the session sees after an `UPDATE` of several rows. -/
theorem modifyAll_view {s : S} {f : ρ → ρ} : ∀ {ks : List κ} {t t' : TxTable S κ ρ}, ks.Nodup →
    t.modifyAll s f ks = some t' →
      t'.view s = fun k => if k ∈ ks then (t.view s k).map f else t.view s k
  | [], t, t', _, h => by
    simp only [modifyAll, Option.some.injEq] at h
    simp [h]
  | k :: ks, t, t', hn, h => by
    simp only [modifyAll, Option.bind_eq_some_iff] at h
    obtain ⟨t₁, h1, h2⟩ := h
    obtain ⟨hk, hn⟩ := List.nodup_cons.1 hn
    ext1 k'
    rw [modifyAll_view hn h2, modify_view h1]
    by_cases he : k' = k
    · simp [he, hk]
    · simp [he]

/-- A property every row update keeps is kept by an `UPDATE` of several rows. -/
theorem modifyAll_inv {I : TxTable S κ ρ → Prop} {s : S} {f : ρ → ρ}
    (hI : ∀ {t t' k}, t.modify s k f = some t' → I t → I t') :
    ∀ {ks : List κ} {t t' : TxTable S κ ρ}, t.modifyAll s f ks = some t' → I t → I t'
  | [], t, t', h, h0 => by
    simp only [modifyAll, Option.some.injEq] at h
    exact h ▸ h0
  | k :: ks, t, t', h, h0 => by
    simp only [modifyAll, Option.bind_eq_some_iff] at h
    obtain ⟨t₁, h1, h2⟩ := h
    exact modifyAll_inv hI h2 (hI h1 h0)

omit [DecidableEq κ] in
/-- A commit leaves a row held by another session as it is. -/
theorem committed_commit_of_lock {t : TxTable S κ ρ} (h : t.Owned) {s s' : S} {k : κ}
    (hk : t.lock k = some s) (hs : s' ≠ s) : (t.commit s').committed k = t.committed k := by
  refine view_eq_committed (Classical.byContradiction fun hp => ?_)
  rw [h s' k hp] at hk
  exact hs (Option.some.inj hk)

/-! ## Ownership -/

theorem Owned.acquire {t : TxTable S κ ρ} (h : t.Owned) {s : S} {k : κ} (hf : t.free s k = true) :
    (t.acquire s k).Owned := by
  intro s' k' hp
  have hl := h s' k' hp
  by_cases hk : k' = k
  · subst hk
    simp only [free, decide_eq_true_eq, hl, reduceCtorEq, Option.some.injEq, false_or] at hf
    simp [TxTable.acquire, hf]
  · simpa [TxTable.acquire, hk] using hl

theorem Owned.write {t : TxTable S κ ρ} (h : t.Owned) {s : S} {k : κ} (hf : t.free s k = true)
    (v : Option ρ) : (t.write s k v).Owned := by
  intro s' k' hp
  by_cases hk : k' = k
  · subst hk
    by_cases hs : s' = s
    · simp [TxTable.write, hs]
    · have hl := h s' k' (by simpa [TxTable.write, hs] using hp)
      simp only [free, decide_eq_true_eq, hl, reduceCtorEq, Option.some.injEq, false_or] at hf
      exact absurd hf hs
  · have hl := h s' k' (by
      by_cases hs : s' = s
      · subst hs; simpa [TxTable.write, hk] using hp
      · simpa [TxTable.write, hs] using hp)
    simpa [TxTable.write, hk] using hl

omit [DecidableEq κ] in
/-- Ending a transaction, one way or the other, keeps the other sessions' rows theirs. -/
theorem Owned.end_tx {t t' : TxTable S κ ρ} (h : t.Owned) {s : S}
    (hp : t'.pending = Function.update t.pending s fun _ => none)
    (hl : t'.lock = fun k => if t.lock k = some s then none else t.lock k) : t'.Owned := by
  intro s' k hk
  rw [hp] at hk
  by_cases hs : s' = s
  · simp [hs] at hk
  · rw [Function.update_of_ne hs] at hk
    have := h s' k hk
    simp [hl, this, hs]

omit [DecidableEq κ] in
theorem Owned.commit {t : TxTable S κ ρ} (h : t.Owned) (s : S) : (t.commit s).Owned :=
  h.end_tx rfl rfl

omit [DecidableEq κ] in
theorem Owned.rollback {t : TxTable S κ ρ} (h : t.Owned) (s : S) : (t.rollback s).Owned :=
  h.end_tx rfl rfl

/-! ## Statements -/

/-- What a statement of session `s` that touches no row outside `K` can do to a
    table before the session's transaction ends. -/
structure Stmt (s : S) (K : κ → Prop) (t t' : TxTable S κ ρ) : Prop where
  committed : t'.committed = t.committed
  pending_other : ∀ {s'}, s' ≠ s → t'.pending s' = t.pending s'
  pending : ∀ {k}, ¬ K k → t'.pending s k = t.pending s k
  lock : ∀ {k}, ¬ K k → t'.lock k = t.lock k
  lock_other : ∀ {s' k}, s' ≠ s → (t'.lock k = some s' ↔ t.lock k = some s')
  lock_self : ∀ {k}, t.lock k = some s → t'.lock k = some s
  owned : t.Owned → t'.Owned

omit [DecidableEq S] [DecidableEq κ] in
theorem Stmt.refl (s : S) (K : κ → Prop) (t : TxTable S κ ρ) : Stmt s K t t where
  committed := rfl
  pending_other _ := rfl
  pending _ := rfl
  lock _ := rfl
  lock_other _ := Iff.rfl
  lock_self h := h
  owned h := h

omit [DecidableEq S] [DecidableEq κ] in
theorem Stmt.trans {s : S} {K : κ → Prop} {t t' t'' : TxTable S κ ρ} (h : Stmt s K t t')
    (h' : Stmt s K t' t'') : Stmt s K t t'' where
  committed := h'.committed.trans h.committed
  pending_other hs := (h'.pending_other hs).trans (h.pending_other hs)
  pending hk := (h'.pending hk).trans (h.pending hk)
  lock hk := (h'.lock hk).trans (h.lock hk)
  lock_other hs := (h'.lock_other hs).trans (h.lock_other hs)
  lock_self hl := h'.lock_self (h.lock_self hl)
  owned ho := h'.owned (h.owned ho)

omit [DecidableEq S] [DecidableEq κ] in
/-- A statement leaves the session's view of the rows it does not touch. -/
theorem Stmt.view {s : S} {K : κ → Prop} {t t' : TxTable S κ ρ} (h : Stmt s K t t') {k : κ}
    (hk : ¬ K k) : t'.view s k = t.view s k := by
  rw [TxTable.view, h.pending hk, h.committed, ← TxTable.view]

/-! ## A property of one row -/

/-- The row `k` has the property `R` as committed, and as session `s` has written it. -/
structure Conforms (s : S) (k : κ) (R : Option ρ → Prop) (t : TxTable S κ ρ) : Prop where
  committed : R (t.committed k)
  pending : ∀ r, t.pending s k = some r → R r

section
variable {s : S} {k : κ} {R : Option ρ → Prop} {t t' : TxTable S κ ρ}

omit [DecidableEq S] [DecidableEq κ] in
theorem Conforms.view (h : t.Conforms s k R) : R (t.view s k) := by
  unfold TxTable.view
  cases hp : t.pending s k with
  | none => exact h.committed
  | some r => exact h.pending r hp

omit [DecidableEq S] [DecidableEq κ] in
theorem Conforms.stmt {K : κ → Prop} (h : t.Conforms s k R) (hx : Stmt s K t t') (hk : ¬ K k) :
    t'.Conforms s k R where
  committed := by
    rw [hx.committed]
    exact h.committed
  pending r hr := by
    rw [hx.pending hk] at hr
    exact h.pending r hr

omit [DecidableEq S] [DecidableEq κ] in
theorem Conforms.stmt_other {K : κ → Prop} {s' : S} (h : t.Conforms s k R) (hx : Stmt s' K t t')
    (hs : s' ≠ s) : t'.Conforms s k R where
  committed := by
    rw [hx.committed]
    exact h.committed
  pending r hr := by
    rw [hx.pending_other (Ne.symm hs)] at hr
    exact h.pending r hr

omit [DecidableEq κ] in
theorem Conforms.commit (h : t.Conforms s k R) : (t.commit s).Conforms s k R where
  committed := h.view
  pending r hr := by simp [TxTable.commit] at hr

omit [DecidableEq κ] in
/-- Another session's commit keeps the property if what it has written has it. -/
theorem Conforms.commit_other {s' : S} (h : t.Conforms s k R) (hs : s' ≠ s)
    (hw : ∀ r, t.pending s' k = some r → R r) : (t.commit s').Conforms s k R where
  committed := by
    show R (t.view s' k)
    unfold TxTable.view
    cases hp : t.pending s' k with
    | none => exact h.committed
    | some r => exact hw r hp
  pending r hr := by
    simp only [TxTable.commit, Function.update_of_ne (Ne.symm hs)] at hr
    exact h.pending r hr

omit [DecidableEq κ] in
theorem Conforms.rollback (h : t.Conforms s k R) : (t.rollback s).Conforms s k R where
  committed := h.committed
  pending r hr := by simp [TxTable.rollback] at hr

omit [DecidableEq κ] in
theorem Conforms.rollback_other {s' : S} (h : t.Conforms s k R) (hs : s' ≠ s) :
    (t.rollback s').Conforms s k R where
  committed := h.committed
  pending r hr := by
    simp only [TxTable.rollback, Function.update_of_ne (Ne.symm hs)] at hr
    exact h.pending r hr

/-- A write by the session itself keeps the property if the new row has it. -/
theorem Conforms.write (h : t.Conforms s k R) {v : Option ρ} (hv : R v) :
    (t.write s k v).Conforms s k R where
  committed := h.committed
  pending r hr := by
    simp only [TxTable.write, Function.update_self, Option.some.injEq] at hr
    rw [← hr]
    exact hv

end

/-! ## A property of one row, for every session -/

/-- The row `k` has the property `R` as committed, and as any session has written it. -/
def Everywhere (k : κ) (R : Option ρ → Prop) (t : TxTable S κ ρ) : Prop := ∀ s, t.Conforms s k R

section
variable {s : S} {k : κ} {R : Option ρ → Prop} {t t' : TxTable S κ ρ}

omit [DecidableEq κ] in
theorem Everywhere.commit (h : t.Everywhere k R) (s : S) : (t.commit s).Everywhere k R := by
  intro s'
  by_cases hs : s = s'
  · rw [hs]
    exact (h s').commit
  · exact (h s').commit_other hs (h s).pending

omit [DecidableEq κ] in
theorem Everywhere.rollback (h : t.Everywhere k R) (s : S) : (t.rollback s).Everywhere k R := by
  intro s'
  by_cases hs : s = s'
  · rw [hs]
    exact (h s').rollback
  · exact (h s').rollback_other hs

theorem Everywhere.write (h : t.Everywhere k R) {k' : κ} {v : Option ρ} (hv : k' = k → R v) :
    (t.write s k' v).Everywhere k R := by
  intro s'
  refine ⟨(h s').committed, fun r hr => ?_⟩
  by_cases hs : s' = s
  · subst hs
    by_cases hk : k = k'
    · subst hk
      simp only [TxTable.write, Function.update_self, Option.some.injEq] at hr
      rw [← hr]
      exact hv rfl
    · simp only [TxTable.write, Function.update_self, Function.update_of_ne hk] at hr
      exact (h s').pending r hr
  · simp only [TxTable.write, Function.update_of_ne hs] at hr
    exact (h s').pending r hr

theorem Everywhere.update (h : t.Everywhere k R) {k' : κ} {f : Option ρ → Option ρ}
    (hu : t.update s k' f = some t') (hf : k' = k → ∀ r, R r → R (f r)) : t'.Everywhere k R := by
  obtain ⟨-, rfl⟩ := update_eq_some.1 hu
  refine h.write fun hk => hf hk _ ?_
  rw [hk]
  exact (h s).view

theorem Everywhere.modify (h : t.Everywhere k R) {k' : κ} {f : ρ → ρ}
    (hu : t.modify s k' f = some t') (hf : k' = k → ∀ row, R (some row) → R (some (f row))) :
    t'.Everywhere k R := by
  rcases modify_cases hu with ⟨-, rfl⟩ | ⟨row, hrow, -, rfl⟩
  · exact h
  · refine h.write fun hk => hf hk row ?_
    rw [← hrow, hk]
    exact (h s).view

theorem Everywhere.modifyAll (h : t.Everywhere k R) {f : ρ → ρ} {ks : List κ}
    (hu : t.modifyAll s f ks = some t') (hf : ∀ row, R (some row) → R (some (f row))) :
    t'.Everywhere k R :=
  modifyAll_inv (I := Everywhere k R) (fun hm hi => hi.modify hm fun _ => hf) hu h

/-- An `UPDATE` of other rows keeps any property of the row. -/
theorem Everywhere.modifyAll_of_notMem {f : ρ → ρ} : ∀ {ks : List κ} {t t' : TxTable S κ ρ},
    t.Everywhere k R → t.modifyAll s f ks = some t' → k ∉ ks → t'.Everywhere k R
  | [], t, t', h, hu, _ => by
    simp only [TxTable.modifyAll, Option.some.injEq] at hu
    exact hu ▸ h
  | k' :: ks, t, t', h, hu, hk => by
    simp only [TxTable.modifyAll, Option.bind_eq_some_iff] at hu
    obtain ⟨t₁, h1, h2⟩ := hu
    simp only [List.mem_cons, not_or] at hk
    exact Everywhere.modifyAll_of_notMem (h.modify h1 fun he => absurd he.symm hk.1) h2 hk.2

end

/-- Taking a free row lock changes no other session's locks. -/
theorem lock_update_other {t : TxTable S κ ρ} {s s' : S} {k : κ} (hf : t.free s k = true)
    (hs : s' ≠ s) (k' : κ) :
    Function.update t.lock k (some s) k' = some s' ↔ t.lock k' = some s' := by
  by_cases hk : k' = k
  · subst hk
    simp only [free, decide_eq_true_eq] at hf
    rcases hf with hf | hf <;> simp [hf, hs.symm]
  · rw [Function.update_of_ne hk]

theorem Stmt.acquire {t : TxTable S κ ρ} {s : S} {k : κ} {K : κ → Prop} (hf : t.free s k = true)
    (hK : K k) : Stmt s K t (t.acquire s k) where
  committed := rfl
  pending_other _ := rfl
  pending _ := rfl
  lock {k'} hk := Function.update_of_ne (fun h : k' = k => hk (h ▸ hK)) _ _
  lock_other hs := lock_update_other hf hs _
  lock_self {k'} hl := by
    by_cases hk : k' = k
    · simp [TxTable.acquire, hk]
    · simpa [TxTable.acquire, hk] using hl
  owned h := h.acquire hf

theorem Stmt.write {t : TxTable S κ ρ} {s : S} {k : κ} {K : κ → Prop} (hf : t.free s k = true)
    (hK : K k) (v : Option ρ) : Stmt s K t (t.write s k v) where
  committed := rfl
  pending_other hs := Function.update_of_ne hs _ _
  pending {k'} hk := by
    have : k' ≠ k := fun h => hk (h ▸ hK)
    simp [TxTable.write, this]
  lock {k'} hk := Function.update_of_ne (fun h : k' = k => hk (h ▸ hK)) _ _
  lock_other hs := lock_update_other hf hs _
  lock_self {k'} hl := by
    by_cases hk : k' = k
    · simp [TxTable.write, hk]
    · simpa [TxTable.write, hk] using hl
  owned h := h.write hf v

theorem Stmt.update {t t' : TxTable S κ ρ} {s : S} {k : κ} {K : κ → Prop}
    {f : Option ρ → Option ρ} (hu : t.update s k f = some t') (hK : K k) : Stmt s K t t' := by
  obtain ⟨hf, rfl⟩ := update_eq_some.1 hu
  exact .write hf hK _

theorem Stmt.modify {t t' : TxTable S κ ρ} {s : S} {k : κ} {K : κ → Prop} {f : ρ → ρ}
    (hu : t.modify s k f = some t') (hK : K k) : Stmt s K t t' := by
  rcases modify_cases hu with ⟨-, rfl⟩ | ⟨row, -, hf, rfl⟩
  · exact .refl _ _ _
  · exact .write hf hK _

theorem Stmt.modifyAll {s : S} {f : ρ → ρ} {ks : List κ} {t t' : TxTable S κ ρ}
    (hu : t.modifyAll s f ks = some t') : Stmt s (fun _ => True) t t' :=
  modifyAll_inv (I := Stmt s (fun _ => True) t) (fun hm hi => hi.trans (.modify hm trivial)) hu
    (.refl _ _ _)

/-! ## A session by itself -/

omit [DecidableEq κ] in
theorem Mine.free {t : TxTable S κ ρ} {s : S} (h : t.Mine s) (k : κ) : t.free s k = true := by
  simpa [TxTable.free] using h k

omit [DecidableEq κ] in
theorem Mine.contended {t : TxTable S κ ρ} {s : S} (h : t.Mine s) (P : ρ → Bool) (ks : List κ) :
    t.contended s P ks = false := by
  unfold TxTable.contended
  rw [List.any_eq_false]
  intro k _
  rcases h k with hk | hk <;> simp [hk]

theorem Mine.update {t : TxTable S κ ρ} {s : S} (h : t.Mine s) (k : κ)
    (f : Option ρ → Option ρ) : t.update s k f = some (t.write s k (f (t.view s k))) :=
  update_eq_some.2 ⟨h.free k, rfl⟩

theorem Mine.modify {t : TxTable S κ ρ} {s : S} (h : t.Mine s) (k : κ) (f : ρ → ρ) :
    ∃ t', t.modify s k f = some t' := by
  unfold TxTable.modify
  split_ifs
  · exact ⟨_, rfl⟩
  · exact ⟨_, h.update k _⟩

omit [DecidableEq S] [DecidableEq κ] in
theorem Stmt.mine {t t' : TxTable S κ ρ} {s : S} {K : κ → Prop} (h : Stmt s K t t')
    (hm : t.Mine s) : t'.Mine s := by
  intro k
  cases hk : t'.lock k with
  | none => exact Or.inl rfl
  | some s' =>
    by_cases hs : s' = s
    · exact Or.inr (by rw [hs])
    · have hl := (h.lock_other hs).1 hk
      rcases hm k with hn | hn
      · simp [hn] at hl
      · exact absurd (Option.some.inj (hl.symm.trans hn)) hs

theorem Mine.modifyAll {s : S} (f : ρ → ρ) : ∀ (ks : List κ) {t : TxTable S κ ρ}, t.Mine s →
    ∃ t', t.modifyAll s f ks = some t'
  | [], t, _ => ⟨t, rfl⟩
  | k :: ks, t, h => by
    obtain ⟨t', ht⟩ := h.modify k f
    have hm : t'.Mine s := (Stmt.modify (K := fun _ => True) ht trivial).mine h
    obtain ⟨t'', ht'⟩ := Mine.modifyAll f ks hm
    exact ⟨t'', by simp [TxTable.modifyAll, ht, ht']⟩

omit [DecidableEq κ] in
/-- When the transaction ends, no row is held any more. -/
theorem Mine.lock_end {t : TxTable S κ ρ} {s : S} (h : t.Mine s) (k : κ) :
    (if t.lock k = some s then none else t.lock k) = none := by
  rcases h k with hk | hk <;> simp [hk]

end

end TxTable

end Conc
