/-
  Locks and uncommitted writes, read off the log of an interleaved run.

  * `Holds p h`: by its own history `h` a session has locked the user `p` and
    not ended its transaction since.  Then it does hold the lock
    (`lock_of_holds`), and it alone (`holds_unique`);
  * what a session has written and not yet ended the transaction of is in its
    history (`wrote_nsec`, `wrote_subscription`);
  * where every write of a user's rows is made under the user's lock
    (`Locked p`), the committed rows stay as they are while a session holds the
    lock and does not commit (`rowsOf_of_holds`).
-/
import BrainstormServer.Conc.Log
import BrainstormServer.Billing.Frame

namespace BrainstormServer

open Conc Prog

abbrev Hist := History Cmd.Ans

/-- An entry of the log of a run on the store. -/
abbrev LogEntry (S : Type) := Entry Cmd.Ans S (Store S)

/-- A session's frame adds the ends of its transactions. -/
theorem obeys_dbSession {α : Type} {spec : Hist → Cmd → Prop} {Q : Except Exn α → Hist → Prop}
    {p : Billing α} {h : Hist} (hend : ∀ h c, c.endsTx = true → spec h c)
    (hp : p.Obeys spec (fun r h => ∀ z, (∀ x ∈ z, x.1.endsTx = true) → Q r (h ++ z)) h) :
    (dbSession p).Obeys spec Q h := by
  unfold dbSession
  rw [obeys_bind, obeys_tryCatch]
  refine Obeys.mono ?_ hp
  rintro (e | a) h hQ
  · exact ⟨hend _ _ rfl, fun _ => hQ [⟨.rollback, ()⟩] (by simp [Cmd.endsTx])⟩
  · refine ⟨hend _ _ rfl, fun _ => ⟨hend _ _ rfl, fun _ => ?_⟩⟩
    rw [List.append_assoc]
    exact hQ [⟨.commit, ()⟩, ⟨.rollback, ()⟩] (by simp [Cmd.endsTx])

theorem obeys_discard {α : Type} {spec : Hist → Cmd → Prop} {p : Billing α} {h : Hist}
    (hp : p.Obeys spec (fun _ _ => True) h) : (discard p).Obeys spec (fun _ _ => True) h :=
  obeys_bind.2 (hp.mono fun r _ _ => by cases r <;> exact trivial)

/-- Nothing executed yet. -/
def start {S α : Type} (prog : S → Billing α) (st : Store S) : Config Cmd.Ans Exn α S (Store S) :=
  ⟨prog, st, []⟩

/-- The user whose `brainstorm_nsec` row a command writes. -/
def Cmd.nsecWrite : Cmd → Option Pubkey
  | setSchedulingForPubkey p _ _ => some p
  | setBillingBlocked p _ => some p
  | _ => none

/-- The session has locked the user and not ended the transaction since. -/
def Holds (p : Pubkey) (h : Hist) : Prop :=
  ∃ h₁ skip h₂, h = h₁ ++ ⟨.lockUserForUpdate p skip, true⟩ :: h₂ ∧ ∀ x ∈ h₂, ¬ x.1.endsTx = true

theorem Holds.append {p : Pubkey} {h t : Hist} (hh : Holds p h) (ht : ∀ x ∈ t, ¬ x.1.endsTx = true) :
    Holds p (h ++ t) := by
  obtain ⟨h₁, skip, h₂, rfl, hd⟩ := hh
  refine ⟨h₁, skip, h₂ ++ t, by simp, fun x hx => ?_⟩
  rcases List.mem_append.1 hx with hx | hx
  · exact hd x hx
  · exact ht x hx

section
variable {S : Type} [DecidableEq S] {s : S} {p : Pubkey} {st st' : Store S}

/-! ## Locks -/

theorem exec_lockUserForUpdate {skip : Bool} {ω : Outside}
    (h : exec s (.lockUserForUpdate p skip) st ω = some (true, st')) :
    (st.nsec.view s p).isSome = true ∧ st' = { st with nsec := st.nsec.acquire s p } := by
  simp only [exec] at h
  split_ifs at h with h1 h2
  · cases h
  · cases h
    exact ⟨by simpa [Option.isSome_iff_ne_none] using h1, rfl⟩
  · cases h

/-- A lock stays with its session until that session ends its transaction. -/
theorem exec_keeps_lock {e : LogEntry S} (he : e.Executed exec)
    (hd : e.session = s → ¬ e.cmd.endsTx = true) (hl : e.before.nsec.lock p = some s) :
    e.after.nsec.lock p = some s := by
  obtain ⟨ω, he⟩ := he
  rcases exec_cases he with ⟨-, hx⟩ | ⟨hc, ha⟩ | ⟨hc, ha⟩
  · by_cases hs : e.session = s
    · exact hs ▸ hx.nsec.lock_self (by rw [hs]; exact hl)
    · exact (hx.nsec.lock_other (Ne.symm hs)).2 hl
  all_goals
    have hs : e.session ≠ s := fun hs => hd hs (by rw [hc]; rfl)
    rw [ha]
    show (if e.before.nsec.lock p = some e.session then none else e.before.nsec.lock p) = some s
    rw [hl, if_neg (fun h => hs (Option.some.inj h).symm)]

theorem lock_of_holds {l : List (LogEntry S)} (ht : Trace exec st l st') (h : Holds p (own s l)) :
    st'.nsec.lock p = some s := by
  obtain ⟨h₁, skip, h₂, hl, hd⟩ := h
  refine Trace.sustained (fun st => st.nsec.lock p = some s) (fun c => c.endsTx = true) ?_ ?_ ht hl hd
  · rintro ⟨s', before, c, a, after⟩ ⟨ω, he⟩ rfl hc
    cases hc
    have ha : after = { before with nsec := before.nsec.acquire s' p } :=
      (exec_lockUserForUpdate he).2
    show after.nsec.lock p = some s'
    rw [ha]
    exact Function.update_self ..
  · intro e he hd hP
    exact exec_keeps_lock he hd hP

/-- Only one session holds a user. -/
theorem holds_unique {l : List (LogEntry S)} (ht : Trace exec st l st') {s' : S}
    (h : Holds p (own s l)) (h' : Holds p (own s' l)) : s = s' := by
  have h1 := lock_of_holds ht h
  rw [lock_of_holds ht h'] at h1
  exact (Option.some.inj h1).symm

/-! ## Uncommitted writes -/

/-- Another session's command does not touch what `s` has written and loaded. -/
theorem exec_other {e : LogEntry S} (he : e.Executed exec) (hs : e.session ≠ s) :
    e.after.nsec.pending s = e.before.nsec.pending s ∧
      e.after.subscription.pending s = e.before.subscription.pending s ∧
      e.after.loaded s = e.before.loaded s := by
  obtain ⟨ω, he⟩ := he
  rcases exec_cases he with ⟨-, hx⟩ | ⟨-, ha⟩ | ⟨-, ha⟩
  · exact ⟨hx.nsec.pending_other (Ne.symm hs), hx.subscription.pending_other (Ne.symm hs),
      (hx.loaded_other (Ne.symm hs)).1⟩
  · rw [ha]
    exact ⟨Function.update_of_ne (Ne.symm hs) _ _, Function.update_of_ne (Ne.symm hs) _ _, rfl⟩
  · rw [ha]
    exact ⟨Function.update_of_ne (Ne.symm hs) _ _, Function.update_of_ne (Ne.symm hs) _ _,
      Function.update_of_ne (Ne.symm hs) _ _⟩

/-- How a command changes the uncommitted writes of session `s` on the row `p`. -/
theorem exec_pending {ρ : Type} {t t' : TxTable S Pubkey ρ} {e : LogEntry S} {key : Option Pubkey}
    (hx : (e.cmd.endsTx = false ∧ (e.session ≠ s → t'.pending s = t.pending s) ∧
        (e.session = s → key ≠ some p → t'.pending s p = t.pending s p)) ∨
      (e.cmd.endsTx = true ∧ t'.pending = Function.update t.pending e.session fun _ => none))
    (hP : t'.pending s p ≠ none) :
    (e.session = s ∧ key = some p) ∨
      (t.pending s p ≠ none ∧ (e.session = s → ¬ e.cmd.endsTx = true)) := by
  rcases hx with ⟨hd, ho, hk⟩ | ⟨hd, hp⟩
  · by_cases hs : e.session = s
    · by_cases hkey : key = some p
      · exact Or.inl ⟨hs, hkey⟩
      · exact Or.inr ⟨by rwa [← hk hs hkey], fun _ => by simp [hd]⟩
    · exact Or.inr ⟨by rwa [← ho hs], fun h => absurd h hs⟩
  · rw [hp] at hP
    by_cases hs : e.session = s
    · simp [hs] at hP
    · rw [Function.update_of_ne (Ne.symm hs)] at hP
      exact Or.inr ⟨hP, fun h => absurd h hs⟩

theorem exec_pending_subscription {e : LogEntry S} (he : e.Executed exec)
    (hP : e.after.subscription.pending s p ≠ none) :
    (e.session = s ∧ e.cmd.subscriptionKey = some p) ∨
      (e.before.subscription.pending s p ≠ none ∧ (e.session = s → ¬ e.cmd.endsTx = true)) := by
  obtain ⟨ω, he⟩ := he
  refine exec_pending ?_ hP
  rcases exec_cases he with ⟨hc, hx⟩ | ⟨hc, ha⟩ | ⟨hc, ha⟩
  · refine Or.inl ⟨hc, fun hs => hx.subscription.pending_other (Ne.symm hs), fun hs hk => ?_⟩
    exact hs ▸ hx.subscription.pending hk
  · exact Or.inr ⟨by rw [hc]; rfl, by rw [ha]; rfl⟩
  · exact Or.inr ⟨by rw [hc]; rfl, by rw [ha]; rfl⟩

/-- A command that names the user and writes nothing takes the lock. -/
theorem exec_nsecWrite {c : Cmd} {ω : Outside} {a : c.Ans} (he : exec s c st ω = some (a, st'))
    (hc : c.endsTx = false) (hw : c.nsecWrite ≠ some p) :
    st'.nsec.pending s p = st.nsec.pending s p := by
  by_cases hkey : c.nsecKey = some p
  · cases c with
    | lockUserForUpdate q skip =>
      simp only [exec] at he
      split_ifs at he <;> cases he <;> rfl
    | setSchedulingForPubkey q i src => exact absurd hkey hw
    | setBillingBlocked q b => exact absurd hkey hw
    | _ => cases hkey
  · exact (exec_stmt he hc).nsec.pending hkey

theorem exec_pending_nsec {e : LogEntry S} (he : e.Executed exec)
    (hP : e.after.nsec.pending s p ≠ none) :
    (e.session = s ∧ e.cmd.nsecWrite = some p) ∨
      (e.before.nsec.pending s p ≠ none ∧ (e.session = s → ¬ e.cmd.endsTx = true)) := by
  obtain ⟨ω, he⟩ := he
  refine exec_pending ?_ hP
  rcases exec_cases he with ⟨hc, hx⟩ | ⟨hc, ha⟩ | ⟨hc, ha⟩
  · refine Or.inl ⟨hc, fun hs => hx.nsec.pending_other (Ne.symm hs), fun hs hk => ?_⟩
    subst hs
    exact exec_nsecWrite he hc hk
  · exact Or.inr ⟨by rw [hc]; rfl, by rw [ha]; rfl⟩
  · exact Or.inr ⟨by rw [hc]; rfl, by rw [ha]; rfl⟩

theorem wrote_subscription {l : List (LogEntry S)} (ht : Trace exec st l st')
    (h0 : st.subscription.pending s p = none) (hp : st'.subscription.pending s p ≠ none) :
    ∃ h₁, ∃ c : Cmd, ∃ a h₂, own s l = h₁ ++ ⟨c, a⟩ :: h₂ ∧ c.subscriptionKey = some p ∧
      ∀ x ∈ h₂, ¬ x.1.endsTx = true :=
  Trace.since (fun st => st.subscription.pending s p ≠ none)
    (fun c => c.subscriptionKey = some p) (fun c => c.endsTx = true)
    (fun _ he => exec_pending_subscription he) l ht (by simpa using h0) hp

theorem wrote_nsec {l : List (LogEntry S)} (ht : Trace exec st l st')
    (h0 : st.nsec.pending s p = none) (hp : st'.nsec.pending s p ≠ none) :
    ∃ h₁, ∃ c : Cmd, ∃ a h₂, own s l = h₁ ++ ⟨c, a⟩ :: h₂ ∧ c.nsecWrite = some p ∧
      ∀ x ∈ h₂, ¬ x.1.endsTx = true :=
  Trace.since (fun st => st.nsec.pending s p ≠ none)
    (fun c => c.nsecWrite = some p) (fun c => c.endsTx = true)
    (fun _ he => exec_pending_nsec he) l ht (by simpa using h0) hp

/-- A session that has only looked at the clock has loaded and written nothing. -/
theorem untouched_of_utcNow {l : List (LogEntry S)} (ht : Trace exec st l st')
    (hl0 : st.loaded s p = none) (hs0 : st.subscription.pending s p = none)
    (ho : ∀ x ∈ own s l, x.1 = .utcNow) :
    st'.loaded s p = none ∧ st'.subscription.pending s p = none := by
  refine ht.inv (I := fun st => st.loaded s p = none ∧ st.subscription.pending s p = none) ?_
    ⟨hl0, hs0⟩
  intro e he ω hω hI
  by_cases hs : e.session = s
  · have hcmd := ho ⟨e.cmd, e.ans⟩ (by rw [← hs]; exact own_of_mem he)
    obtain ⟨s', before, c, a, after⟩ := e
    obtain rfl : c = .utcNow := hcmd
    simp only [exec, Option.some.injEq, Prod.mk.injEq] at hω
    show after.loaded s p = none ∧ after.subscription.pending s p = none
    rw [← hω.2]
    exact hI
  · obtain ⟨-, hsub, hl⟩ := exec_other ⟨ω, hω⟩ hs
    rw [hl, hsub]
    exact hI

/-! ## Rows written under the lock -/

/-- Every write of the user's rows is made by a session that holds the user. -/
def Locked (p : Pubkey) (l : List (LogEntry S)) : Prop :=
  ∀ l₁ (e : LogEntry S) l₂, l = l₁ ++ e :: l₂ → (e.cmd.nsecWrite = some p ∨ e.cmd.subscriptionKey = some p) →
    Holds p (own e.session l₁)

theorem Locked.take {l l' : List (LogEntry S)} (h : Locked p (l ++ l')) : Locked p l := by
  intro l₁ e l₂ hl
  exact h l₁ e (l₂ ++ l') (by rw [hl]; simp)

theorem not_endsTx_of_write {c : Cmd} (h : c.nsecWrite = some p ∨ c.subscriptionKey = some p) :
    ¬ c.endsTx = true := by
  cases c <;> simp_all [Cmd.nsecWrite, Cmd.subscriptionKey, Cmd.endsTx]

/-- A session that has written one of the user's rows under the lock still
    holds the user. -/
theorem Locked.holds {l : List (LogEntry S)} (hl : Locked p l) {h₁ h₂ : Hist} {c : Cmd} {a : c.Ans}
    (ho : own s l = h₁ ++ ⟨c, a⟩ :: h₂) (hw : c.nsecWrite = some p ∨ c.subscriptionKey = some p)
    (hd : ∀ x ∈ h₂, ¬ x.1.endsTx = true) : Holds p (own s l) := by
  obtain ⟨l₁, e, l₂, rfl, rfl, he, h1, h2⟩ := own_split ho
  have hw' : e.cmd.nsecWrite = some p ∨ e.cmd.subscriptionKey = some p := by
    have hc : e.cmd = c := congrArg Sigma.fst he
    rw [hc]
    exact hw
  have hh := hl l₁ e l₂ rfl hw'
  rw [own_append, own_cons_self rfl, h2]
  refine hh.append fun x hx => ?_
  rcases List.mem_cons.1 hx with rfl | hx
  · exact not_endsTx_of_write hw'
  · exact hd x hx

theorem Locked.pending {l : List (LogEntry S)} (hl : Locked p l) (ht : Trace exec st l st')
    (hn0 : st.nsec.pending s p = none) (hs0 : st.subscription.pending s p = none)
    (hp : st'.nsec.pending s p ≠ none ∨ st'.subscription.pending s p ≠ none) :
    Holds p (own s l) := by
  rcases hp with hp | hp
  · obtain ⟨h₁, c, a, h₂, ho, hw, hd⟩ := wrote_nsec ht hn0 hp
    exact hl.holds ho (Or.inl hw) hd
  · obtain ⟨h₁, c, a, h₂, ho, hw, hd⟩ := wrote_subscription ht hs0 hp
    exact hl.holds ho (Or.inr hw) hd

/-- The committed rows of a user. -/
def Store.rowsOf (st : Store S) (p : Pubkey) : Option BrainstormNsec × Option UserSubscription :=
  (st.nsec.committed p, st.subscription.committed p)

theorem exec_rowsOf {e : LogEntry S} (he : e.Executed exec)
    (hw : e.cmd = .commit → e.before.nsec.pending e.session p = none ∧
      e.before.subscription.pending e.session p = none) :
    e.after.rowsOf p = e.before.rowsOf p := by
  obtain ⟨ω, he⟩ := he
  rw [Store.rowsOf, exec_committed_nsec he fun hc => (hw hc).1,
    exec_committed_subscription he fun hc => (hw hc).2, ← Store.rowsOf]

/-- **While a session holds the user and commits nothing**, the user's committed
    rows stay as they are. -/
theorem rowsOf_of_holds {l m : List (LogEntry S)} {st₀ : Store S} (hl : Locked p (l ++ m))
    (hn0 : ∀ s, st₀.nsec.pending s p = none) (hs0 : ∀ s, st₀.subscription.pending s p = none)
    (ht : Trace exec st₀ l st) (ht' : Trace exec st m st') (hh : Holds p (own s l))
    (hd : ∀ x ∈ own s m, ¬ x.1.endsTx = true) : st'.rowsOf p = st.rowsOf p := by
  refine Trace.inv_split (fun x => x.rowsOf p = st.rowsOf p) m ht' ?_ rfl
  intro m₁ e m₂ hm ht₁ he hI
  rw [← hI]
  have htl := ht.append ht₁
  have hl' : Locked p (l ++ m₁) := by
    rw [hm, ← List.append_assoc] at hl
    exact hl.take
  have hholds : Holds p (own s (l ++ m₁)) := by
    rw [own_append]
    refine hh.append fun x hx => hd x ?_
    rw [hm, own_append]
    exact List.mem_append_left _ hx
  refine exec_rowsOf he fun hc => ?_
  by_contra hpend
  -- a session about to commit writes of these rows would hold the user as well
  have hholds' : Holds p (own e.session (l ++ m₁)) := by
    refine hl'.pending htl (hn0 _) (hs0 _) ?_
    by_contra hnone
    simp only [not_or, not_not] at hnone
    exact hpend hnone
  have hs : s = e.session := holds_unique htl hholds hholds'
  have hend : e.cmd.endsTx = true := by rw [hc]; rfl
  refine hd ⟨e.cmd, e.ans⟩ ?_ hend
  rw [hs, hm, own_append, own_cons_self rfl]
  exact List.mem_append_right _ List.mem_cons_self

end

end BrainstormServer
