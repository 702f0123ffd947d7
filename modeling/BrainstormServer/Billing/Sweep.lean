/-
  The lapse sweep among other sessions (`revoke_lapsed_entitlements`).

  The sweep selects its candidates once and then decides, revokes and commits
  row by row, without the user's lock.  Whatever the others do:

  * it takes a policy only from a candidate whose selected row decides REVOKE,
    right after it has read a source other than admin (`Sweeps`);
  * so the row committed at the moment it takes the policy decides REVOKE, and
    the assignment it overwrites is not an admin's, if no other session has
    committed a newer one in between (`sweep_takes_lapsed`);
  * a renewal or an admin's assignment that commits in between is undone
    (`sweep_undoes_newer`).
-/
import BrainstormServer.Billing.Alone
import BrainstormServer.Billing.Interleaving

namespace BrainstormServer

open Conc Prog

/-! ## What the sweep does, by its own history -/

/-- No user's row has been written since the last end of a transaction. -/
def Clean (h : Hist) : Prop :=
  ∃ h₁ h₂, h = h₁ ++ h₂ ∧ (h₁ = [] ∨ ∃ h₀ x, h₁ = h₀ ++ [x] ∧ x.1.endsTx = true) ∧
    ∀ y ∈ h₂, y.1.nsecWrite = none

theorem clean_nil : Clean [] := ⟨[], [], rfl, Or.inl rfl, fun _ hx => nomatch hx⟩

theorem Clean.snoc {h : Hist} (hc : Clean h) (c : Cmd) (a : c.Ans) (hw : c.nsecWrite = none) :
    Clean (h ++ [⟨c, a⟩]) := by
  obtain ⟨h₁, h₂, rfl, hend, hno⟩ := hc
  refine ⟨h₁, h₂ ++ [⟨c, a⟩], by simp, hend, fun x hx => ?_⟩
  rcases List.mem_append.1 hx with hx | hx
  · exact hno x hx
  · rw [List.mem_singleton.1 hx]
    exact hw

theorem clean_endsTx (h : Hist) (c : Cmd) (a : c.Ans) (hc : c.endsTx = true) :
    Clean (h ++ [⟨c, a⟩]) :=
  ⟨h ++ [⟨c, a⟩], [], by simp, Or.inr ⟨h, _, rfl, hc⟩, fun x hx => nomatch hx⟩

/-- The time the sweep decides at. -/
def SweepTime (now : Option DateTime) (h : Hist) (at_ : DateTime) : Prop :=
  now = some at_ ∨ (now = none ∧ ∃ t, h = ⟨.utcNow, at_⟩ :: t)

theorem SweepTime.append {now : Option DateTime} {h : Hist} {at_ : DateTime}
    (ht : SweepTime now h at_) (t : Hist) : SweepTime now (h ++ t) at_ := by
  rcases ht with ht | ⟨ht, t', rfl⟩
  · exact Or.inl ht
  · exact Or.inr ⟨ht, t' ++ t, rfl⟩

theorem SweepTime.unique {now : Option DateTime} {h : Hist} {a b : DateTime}
    (ha : SweepTime now h a) (hb : SweepTime now h b) : a = b := by
  rcases ha with ha | ⟨ha, t, rfl⟩ <;> rcases hb with hb | ⟨hb, t', hb'⟩
  · rw [ha] at hb
    exact Option.some.inj hb
  · rw [ha] at hb
    cases hb
  · rw [ha] at hb
    cases hb
  · simp only [List.cons.injEq, Sigma.mk.injEq, heq_eq_eq, true_and] at hb'
    exact hb'.1

/-- What a command of the sweep may be, given its history. -/
structure Sweeps (now : Option DateTime) (h : Hist) (c : Cmd) : Prop where
  takes : ∀ p, c.nsecWrite = some p → ∃ at_ rows row, ∃ src : SchedulingSource, ∃ h₁, SweepTime now h at_ ∧
    h = h₁ ++ [⟨.getSchedulingSource p, src⟩] ∧ src ≠ .admin ∧
    (⟨.selectEntitlementCandidates, rows⟩ : Σ c, Cmd.Ans c) ∈ h₁ ∧ (p, row) ∈ rows ∧
    row.decide at_ = .revoke
  clears : ∀ p, c.subscriptionKey = some p → c = .clearGrantedScheduling p
  asks : ∀ p, c = .getSchedulingSource p → Clean h
  selects : c = .selectEntitlementCandidates → ∀ x ∈ h, x.1 = .utcNow

/-- Nothing is asked of the commands that neither write nor read a row. -/
theorem sweeps_of_idle {now : Option DateTime} {h : Hist} {c : Cmd} (hn : c.nsecWrite = none)
    (hs : c.subscriptionKey = none) (hg : ∀ p, c ≠ .getSchedulingSource p)
    (hc : c ≠ .selectEntitlementCandidates) : Sweeps now h c where
  takes p hp := by
    rw [hn] at hp
    cases hp
  clears p hp := by
    rw [hs] at hp
    cases hp
  asks p hp := absurd hp (hg p)
  selects h := absurd h hc

theorem sweeps_asks {now : Option DateTime} {h : Hist} {p : Pubkey} (hc : Clean h) :
    Sweeps now h (.getSchedulingSource p) where
  takes _ hq := nomatch hq
  clears _ hq := nomatch hq
  asks _ _ := hc
  selects hq := nomatch hq

theorem sweeps_clears {now : Option DateTime} {h : Hist} {p : Pubkey} :
    Sweeps now h (.clearGrantedScheduling p) where
  takes _ hq := nomatch hq
  clears q hq := by
    cases hq
    rfl
  asks _ hq := nomatch hq
  selects hq := nomatch hq

theorem sweeps_selects {now : Option DateTime} {h : Hist} (hx : ∀ x ∈ h, x.1 = .utcNow) :
    Sweeps now h .selectEntitlementCandidates where
  takes _ hq := nomatch hq
  clears _ hq := nomatch hq
  asks _ hq := nomatch hq
  selects _ := hx

section
variable {now : Option DateTime} {at_ : DateTime} {rows : List (Pubkey × UserSubscription)}

theorem revokeLapsed_obeys {h : Hist} (hc : Clean h) (ht : SweepTime now h at_)
    (hsel : (⟨.selectEntitlementCandidates, rows⟩ : Σ c, Cmd.Ans c) ∈ h) {p : Pubkey}
    {row : UserSubscription} (hrow : (p, row) ∈ rows) :
    (revokeLapsed at_ p row).Obeys (Sweeps now) (fun _ h' => Clean h' ∧ ∃ t, h' = h ++ t) h := by
  have hnil : Clean h ∧ ∃ t, h = h ++ t := ⟨hc, [], by simp⟩
  unfold revokeLapsed
  split
  · exact hnil
  · rename_i g _
    split_ifs with hd
    · simp only [await, bind_eq, call_bind, pure_eq]
      refine ⟨sweeps_asks hc, fun src => ?_⟩
      rw [hd]
      beta_reduce
      cases ha : isAdminHeld src with
      | true => exact ⟨hc.snoc _ _ rfl, _, rfl⟩
      | false =>
        have hsrc : src ≠ .admin := by simpa [isAdminHeld] using ha
        have htakes : Sweeps now (h ++ [⟨.getSchedulingSource p, src⟩])
            (.setSchedulingForPubkey p none .default) := by
          refine ⟨?_, (fun _ hq => nomatch hq), (fun _ hq => nomatch hq), (fun hq => nomatch hq)⟩
          rintro q ⟨⟩
          exact ⟨at_, rows, row, src, h, ht.append _, rfl, hsrc, hsel, hrow, hd⟩
        refine ⟨htakes, fun _ => ⟨sweeps_clears, fun _ => ⟨?_, fun _ => ?_⟩⟩⟩
        · exact sweeps_of_idle rfl rfl (fun _ hq => nomatch hq) (fun hq => nomatch hq)
        · refine ⟨clean_endsTx _ _ _ rfl, ?_⟩
          simp only [List.append_assoc]
          exact ⟨_, rfl⟩
    · exact hnil

/-- The loop: the rows still to come are among those selected. -/
theorem revokeAll_obeys : ∀ (rest : List (Pubkey × UserSubscription)) (n : ℕ) {h : Hist},
    Clean h → SweepTime now h at_ →
    (⟨.selectEntitlementCandidates, rows⟩ : Σ c, Cmd.Ans c) ∈ h → (∀ x ∈ rest, x ∈ rows) →
    (revokeAll at_ rest n).Obeys (Sweeps now) (fun _ _ => True) h := by
  intro rest
  induction rest with
  | nil =>
    intro n h _ _ _ _
    exact trivial
  | cons x rest ih =>
    intro n h hc ht hsel hrest
    unfold revokeAll
    refine obeys_bind.2 (Obeys.mono ?_
      (revokeLapsed_obeys hc ht hsel (hrest x List.mem_cons_self)))
    rintro (e | taken) h' ⟨hc', t, rfl⟩
    · exact trivial
    · exact ih _ hc' (ht.append t) (List.mem_append_left _ hsel)
        fun y hy => hrest y (List.mem_cons_of_mem _ hy)

theorem revokeLapsedEntitlements_obeys (now : Option DateTime) :
    (revokeLapsedEntitlements now).Obeys (Sweeps now) (fun _ _ => True) [] := by
  unfold revokeLapsedEntitlements resolveNow
  cases now with
  | some t =>
    refine ⟨sweeps_selects (fun x hx => nomatch hx), fun rows => ?_⟩
    exact revokeAll_obeys rows 0 (clean_nil.snoc _ _ rfl) (Or.inl rfl) (by simp) fun x hx => hx
  | none =>
    refine ⟨sweeps_of_idle rfl rfl (fun _ hq => nomatch hq) (fun hq => nomatch hq), fun t => ?_⟩
    refine ⟨sweeps_selects (by simp), fun rows => ?_⟩
    exact revokeAll_obeys rows 0 ((clean_nil.snoc _ _ rfl).snoc _ _ rfl)
      (Or.inr ⟨rfl, _, rfl⟩) (by simp) fun x hx => hx

/-- The sweep as it runs in a session of its own. -/
def sweep (now : Option DateTime) : Billing Unit := dbSession (discard (revokeLapsedEntitlements now))

theorem sweep_obeys (now : Option DateTime) :
    (sweep now).Obeys (Sweeps now) (fun _ _ => True) [] := by
  have hidle : ∀ h c, c.endsTx = true → Sweeps now h c := by
    intro h c hc
    rcases endsTx_cases hc with rfl | rfl
    · exact sweeps_of_idle rfl rfl (fun _ hq => nomatch hq) (fun hq => nomatch hq)
    · exact sweeps_of_idle rfl rfl (fun _ hq => nomatch hq) (fun hq => nomatch hq)
  refine obeys_dbSession hidle (Obeys.mono (fun _ _ _ _ _ => trivial) (obeys_discard ?_))
  exact revokeLapsedEntitlements_obeys now

end

/-! ## The sweep among other sessions -/

section
variable {S : Type} [DecidableEq S] {v : S} {p : Pubkey}

/-- The commit by which session `v` takes the policy of `p`. -/
def Takes (v : S) (p : Pubkey) (e : LogEntry S) : Prop :=
  e.session = v ∧ e.cmd = .commit ∧ e.before.nsec.pending v p ≠ none

/-- A row that decides REVOKE. -/
def LapsedRow (at_ : DateTime) (r : Option UserSubscription) : Prop :=
  ∃ row, r = some row ∧ row.decide at_ = .revoke

/-- What is committed about `p` lets the sweep take the policy. -/
def Lapsed (at_ : DateTime) (p : Pubkey) (st : Store S) : Prop :=
  LapsedRow at_ (st.subscription.committed p) ∧
    ∀ row, st.nsec.committed p = some row → row.schedulingSource ≠ .admin

/-- Between the select of the sweep and a commit of it that takes the policy of
    `p`, no other session commits a row of `p` that does not decide REVOKE; and
    between the read of `p`'s source and that commit, no other session commits an
    admin's assignment. -/
structure Undisturbed (v : S) (at_ : DateTime) (log : List (LogEntry S)) : Prop where
  rows : ∀ p l₁ (es : LogEntry S) m (e : LogEntry S) l₂ (ec : LogEntry S) l₃,
    log = l₁ ++ es :: (m ++ e :: (l₂ ++ ec :: l₃)) →
    es.session = v → es.cmd = .selectEntitlementCandidates → Takes v p ec →
    e.session ≠ v → e.cmd = .commit →
    ∀ r, e.before.subscription.pending e.session p = some r → LapsedRow at_ r
  source : ∀ p l₁ (er : LogEntry S) m (e : LogEntry S) l₂ (ec : LogEntry S) l₃,
    log = l₁ ++ er :: (m ++ e :: (l₂ ++ ec :: l₃)) →
    er.session = v → er.cmd = .getSchedulingSource p →
    (∀ x ∈ own v (m ++ e :: l₂), ¬ x.1.endsTx = true) → Takes v p ec →
    e.session ≠ v → e.cmd = .commit →
    ∀ row, e.before.nsec.pending e.session p = some (some row) → row.schedulingSource ≠ .admin

/-- Clearing the grant does not change what the row decides. -/
theorem LapsedRow.clearGranted {at_ : DateTime} {row : UserSubscription}
    (h : LapsedRow at_ (some row)) : LapsedRow at_ (some (clearGranted row)) := by
  obtain ⟨_, ⟨⟩, hd⟩ := h
  exact ⟨_, rfl, hd⟩

/-- The row keeps deciding REVOKE, as committed and as the sweep has written it. -/
theorem lapsedRow_step {at_ : DateTime} {e : LogEntry S} (he : e.Executed exec)
    (hclears : e.session = v → ∀ q, e.cmd.subscriptionKey = some q → e.cmd = .clearGrantedScheduling q)
    (hother : e.session ≠ v → e.cmd = .commit →
      ∀ r, e.before.subscription.pending e.session p = some r → LapsedRow at_ r)
    (hI : e.before.subscription.Conforms v p (LapsedRow at_)) :
    e.after.subscription.Conforms v p (LapsedRow at_) := by
  obtain ⟨ω, he⟩ := he
  by_cases hs : e.session = v
  · rw [hs] at he
    rcases exec_cases he with ⟨-, hx⟩ | ⟨-, ha⟩ | ⟨-, ha⟩
    · by_cases hkey : e.cmd.subscriptionKey = some p
      · -- the sweep clears the grant of a row that decides REVOKE
        obtain ⟨s', before, c, a, after⟩ := e
        obtain rfl : c = .clearGrantedScheduling p := hclears hs p hkey
        simp only [exec, Option.map_eq_some_iff, Store.modifySubscription] at he
        obtain ⟨_, ⟨t, ht, rfl⟩, he⟩ := he
        cases he
        rcases TxTable.modify_cases ht with ⟨-, rfl⟩ | ⟨row, hrow, -, rfl⟩
        · exact hI
        · have hview := hI.view
          rw [hrow] at hview
          exact hI.write hview.clearGranted
      · exact hI.stmt hx.subscription hkey
    · rw [ha]
      exact hI.commit
    · rw [ha]
      exact hI.rollback
  · rcases exec_cases he with ⟨-, hx⟩ | ⟨hc, ha⟩ | ⟨-, ha⟩
    · exact hI.stmt_other hx.subscription hs
    · rw [ha]
      exact hI.commit_other hs (hother hs hc)
    · rw [ha]
      exact hI.rollback_other hs

/-- A candidate is the row the session sees, where it has loaded none before. -/
theorem exec_selectEntitlementCandidates {st st' : Store S} {ω : Outside}
    {rows : List (Pubkey × UserSubscription)} {row : UserSubscription}
    (h : exec v .selectEntitlementCandidates st ω = some (rows, st')) (hl : st.loaded v p = none)
    (hrow : (p, row) ∈ rows) :
    st.subscription.view v p = some row ∧ st'.subscription = st.subscription := by
  simp only [exec, Option.some.injEq, Prod.mk.injEq] at h
  obtain ⟨rfl, rfl⟩ := h
  obtain ⟨⟨q, r⟩, hr, hentity⟩ := List.mem_map.1 hrow
  simp only [Store.entity, Prod.mk.injEq] at hentity
  obtain ⟨rfl, hentity⟩ := hentity
  simp only [hl, Option.getD_none] at hentity
  obtain ⟨hmem, -⟩ := List.mem_filter.1 hr
  exact ⟨by rw [Store.mem_subscriptions hmem, hentity], rfl⟩

/-- A clean history leaves nothing of `p` uncommitted. -/
theorem Clean.pending {st st' : Store S} {l : List (LogEntry S)} (hc : Clean (own v l))
    (ht : Trace exec st l st') (hq : st.Quiet) : st'.nsec.pending v p = none := by
  by_contra hp
  obtain ⟨g₁, c, a, g₂, ho, hw, hopen⟩ := wrote_nsec ht (hq.nsec_pending v p) hp
  obtain ⟨h₁, h₂, hh, hend, hno⟩ := hc
  have hwrite : (⟨c, a⟩ : Σ c, Cmd.Ans c) ∉ h₂ := by
    intro hmem
    have hnone := hno _ hmem
    rw [hw] at hnone
    cases hnone
  rcases hend with rfl | ⟨h₀, x, rfl, hx⟩
  · refine hwrite ?_
    rw [← List.nil_append h₂, ← hh, ho]
    simp
  · have hsplit : h₀ ++ x :: h₂ = g₁ ++ ⟨c, a⟩ :: g₂ := by
      rw [← ho, hh]
      simp
    rcases split_compare hsplit with ⟨m, -, hm⟩ | ⟨-, hxc, -⟩ | ⟨m, -, hm⟩
    · refine hwrite ?_
      rw [hm]
      simp
    · rw [hxc] at hx
      exact not_endsTx_of_write (Or.inl hw) hx
    · exact hopen x (by rw [hm]; simp) hx

/-- A committed assignment that is no admin's stays so, unless another session
    commits an admin's. -/
theorem source_step {e : LogEntry S} (he : e.Executed exec)
    (hown : e.session = v → ¬ e.cmd.endsTx = true)
    (hother : e.session ≠ v → e.cmd = .commit → ∀ row,
      e.before.nsec.pending e.session p = some (some row) → row.schedulingSource ≠ .admin)
    (hI : ∀ row, e.before.nsec.committed p = some row → row.schedulingSource ≠ .admin) :
    ∀ row, e.after.nsec.committed p = some row → row.schedulingSource ≠ .admin := by
  obtain ⟨ω, he⟩ := he
  intro row hrow
  by_cases hw : e.cmd = .commit → e.before.nsec.pending e.session p = none
  · rw [exec_committed_nsec he hw] at hrow
    exact hI row hrow
  · push Not at hw
    obtain ⟨hc, hp⟩ := hw
    have hs : e.session ≠ v := fun hs => hown hs (by rw [hc]; rfl)
    obtain ⟨r, hr⟩ := Option.ne_none_iff_exists'.1 hp
    have hafter : e.after.nsec.committed p = r := by
      obtain ⟨s', before, c, a, after⟩ := e
      obtain rfl : c = .commit := hc
      simp only [exec, Option.some.injEq, Prod.mk.injEq] at he
      show after.nsec.committed p = r
      rw [← he.2]
      show before.nsec.view s' p = r
      simp only [TxTable.view]
      rw [hr]
      rfl
    rw [hafter] at hrow
    rw [hrow] at hr
    exact hother hs hc row hr

section
variable {now : Option DateTime} {at_ : DateTime} {st st' : Store S} {log : List (LogEntry S)}
  (hq : st.Quiet) (ht : Trace exec st log st')
  (hspec : ∀ l (e : LogEntry S) l', log = l ++ e :: l' → e.session = v → Sweeps now (own v l) e.cmd)
  (hat : SweepTime now (own v log) at_) (hu : Undisturbed v at_ log)
include hq ht hspec hat

/-- Before it takes a policy, the sweep has selected a row that decides REVOKE,
    and then, in the same transaction, read a source other than admin. -/
theorem takes_after {k k' : List (LogEntry S)} {ec : LogEntry S} (hlog : log = k ++ ec :: k')
    (htakes : Takes v p ec) :
    ∃ l₁, ∃ es : LogEntry S, ∃ l₂, ∃ er : LogEntry S, ∃ m rows row src,
      k = l₁ ++ es :: (l₂ ++ er :: m) ∧ es.session = v ∧
      (⟨es.cmd, es.ans⟩ : Σ c, Cmd.Ans c) = ⟨.selectEntitlementCandidates, rows⟩ ∧
      (p, row) ∈ rows ∧ row.decide at_ = .revoke ∧ er.session = v ∧
      (⟨er.cmd, er.ans⟩ : Σ c, Cmd.Ans c) = ⟨.getSchedulingSource p, src⟩ ∧ src ≠ .admin ∧
      ∀ x ∈ own v m, ¬ x.1.endsTx = true := by
  have htk := ht
  rw [hlog] at htk
  obtain ⟨h₁, c, a, h₂, ho, hw, hopen⟩ :=
    wrote_nsec htk.split_cons.1 (hq.nsec_pending v p) htakes.2.2
  -- the write that the commit makes effective
  obtain ⟨k₁, ew, k₂, rfl, hsw, hcw, ho₁, ho₂⟩ := own_split ho
  have hwrite : ew.cmd.nsecWrite = some p := by
    rw [show ew.cmd = c from congrArg Sigma.fst hcw]
    exact hw
  obtain ⟨at', rows, row, src, h₀, hat', hask, hsrc, hsel, hrow, hdec⟩ :=
    (hspec k₁ ew (k₂ ++ ec :: k') (by rw [hlog]; simp) hsw).takes p hwrite
  -- the read of the source right before it, and the select
  obtain ⟨j, er, j', rfl, hsr, hcr, hj, hj'⟩ := own_split hask
  rw [← hj] at hsel
  obtain ⟨g₁, g₂, hg⟩ := List.append_of_mem hsel
  obtain ⟨l₁, es, l₂, rfl, hss, hcs, -, -⟩ := own_split hg
  have htime : at' = at_ := by
    refine SweepTime.unique ?_ hat
    rw [hlog, own_append, own_append, List.append_assoc]
    exact hat'.append _
  rw [htime] at hdec
  refine ⟨l₁, es, l₂, er, j' ++ ew :: k₂, rows, row, src, by simp, hss, hcs, hrow, hdec, hsr, hcr,
    hsrc, fun x hx => ?_⟩
  rw [own_append, hj', own_cons_self hsw, ho₂, List.nil_append] at hx
  rcases List.mem_cons.1 hx with rfl | hx
  · exact not_endsTx_of_write (Or.inl hwrite)
  · exact hopen x hx

include hu

theorem lapsedRow_at_take {k k' : List (LogEntry S)} {ec : LogEntry S} (hlog : log = k ++ ec :: k')
    (htakes : Takes v p ec) : LapsedRow at_ (ec.before.subscription.committed p) := by
  obtain ⟨l₁, es, l₂, er, m, rows, row, src, rfl, hss, hcs, hrow, hdec, -, -, -, -⟩ :=
    takes_after hq ht hspec hat hlog htakes
  have hsel : es.cmd = .selectEntitlementCandidates := congrArg Sigma.fst hcs
  have hlog' : log = l₁ ++ es :: (l₂ ++ er :: m ++ ec :: k') := by rw [hlog]; simp
  rw [hlog'] at ht
  obtain ⟨ht₁, hes, ht₂⟩ := ht.split_cons
  obtain ⟨htm, -, -⟩ := ht₂.split_cons
  obtain ⟨ω, hω⟩ := Entry.Executed.as hes hss hcs
  obtain ⟨hloaded, hpend⟩ := untouched_of_utcNow (p := p) ht₁ (by rw [hq.loaded])
    (hq.subscription_pending v p) ((hspec l₁ es _ hlog' hss).selects hsel)
  obtain ⟨hview, hsame⟩ := exec_selectEntitlementCandidates hω hloaded hrow
  have hstart : es.after.subscription.Conforms v p (LapsedRow at_) := by
    rw [hsame]
    rw [TxTable.view_eq_committed hpend] at hview
    refine ⟨⟨row, hview, hdec⟩, fun r hr => ?_⟩
    rw [hpend] at hr
    cases hr
  refine TxTable.Conforms.committed (Trace.inv_split
    (fun st => st.subscription.Conforms v p (LapsedRow at_)) _ htm ?_ hstart)
  intro m₁ e m₂ hm _ he hI
  refine lapsedRow_step he (fun hs => ?_) (fun hs hc => ?_) hI
  · refine (hspec (l₁ ++ es :: m₁) e (m₂ ++ ec :: k') ?_ hs).clears
    rw [hlog', hm]
    simp
  · refine hu.rows p l₁ es m₁ e m₂ ec k' ?_ hss hsel htakes hs hc
    rw [hlog', hm]
    simp

theorem source_at_take {k k' : List (LogEntry S)} {ec : LogEntry S} (hlog : log = k ++ ec :: k')
    (htakes : Takes v p ec) {row : BrainstormNsec} (hrow : ec.before.nsec.committed p = some row) :
    row.schedulingSource ≠ .admin := by
  obtain ⟨l₁, es, l₂, er, m, -, -, src, rfl, -, -, -, -, hsr, hcr, hsrc, hopen⟩ :=
    takes_after hq ht hspec hat hlog htakes
  have hask : er.cmd = .getSchedulingSource p := congrArg Sigma.fst hcr
  have hlog' : log = (l₁ ++ es :: l₂) ++ er :: (m ++ ec :: k') := by rw [hlog]; simp
  have hclean := (hspec _ er _ hlog' hsr).asks p hask
  rw [hlog'] at ht
  obtain ⟨ht₁, her, ht₂⟩ := ht.split_cons
  obtain ⟨htm, -, -⟩ := ht₂.split_cons
  obtain ⟨ω, hω⟩ := Entry.Executed.as her hsr hcr
  have hpend := hclean.pending (p := p) ht₁ hq
  simp only [exec, Option.some.injEq, Prod.mk.injEq, TxTable.view_eq_committed hpend] at hω
  have hstart : ∀ row, er.after.nsec.committed p = some row → row.schedulingSource ≠ .admin := by
    intro row hrow
    rw [← hω.2] at hrow
    rw [hrow, Option.map_some, Option.getD_some] at hω
    rw [hω.1]
    exact hsrc
  refine Trace.inv_split (fun st => ∀ row, st.nsec.committed p = some row →
    row.schedulingSource ≠ .admin) m htm ?_ hstart row hrow
  intro m₁ e m₂ hm _ he hI
  refine source_step (v := v) he (fun hs => ?_) (fun hs hc => ?_) hI
  · refine hopen ⟨e.cmd, e.ans⟩ ?_
    rw [← hs]
    exact own_of_mem (by rw [hm]; simp)
  · refine hu.source p (l₁ ++ es :: l₂) er m₁ e m₂ ec k' ?_ hsr hask ?_ htakes hs hc
    · rw [hlog', hm]
      simp
    · rw [← hm]
      exact hopen

end

/-- **The sweep takes a policy only on what is committed**, in every run in which
    no other session commits something newer in between. -/
theorem sweep_takes_lapsed (prog : S → Billing Unit) (v : S) {now : Option DateTime}
    (hv : prog v = sweep now) {st : Store S} (hq : st.Quiet) {xs : List (S × Outside)}
    {cfg : Config Cmd.Ans Exn Unit S (Store S)} (hrun : (start prog st).run exec xs = some cfg)
    {at_ : DateTime} (hat : SweepTime now (own v cfg.log) at_) (hu : Undisturbed v at_ cfg.log) :
    ∀ l ec l' p, cfg.log = l ++ ec :: l' → Takes v p ec → Lapsed at_ p ec.before := by
  obtain ⟨es, hes, ht⟩ := Config.run_trace hrun
  have hlog : cfg.log = es := hes
  rw [← hlog] at ht
  have hobeys : ((start prog st).prog v).Obeys (Sweeps now) (fun _ _ => True) [] := by
    show (prog v).Obeys (Sweeps now) (fun _ _ => True) []
    rw [hv]
    exact sweep_obeys now
  have hspec : ∀ l (e : LogEntry S) l', cfg.log = l ++ e :: l' → e.session = v → Sweeps now (own v l) e.cmd :=
    fun l e l' hl hs => Config.run_obeys_one v (Sweeps now) rfl hobeys hrun hl hs
  intro l ec l' p hl htakes
  exact ⟨lapsedRow_at_take hq ht hspec hat hu hl htakes,
    fun row hrow => source_at_take hq ht hspec hat hu hl htakes hrow⟩

end

/-! ## Small runs -/

/-- A payer whose canceled period ended at 1000, and whose policy is still 7. -/
def lapsedPayer : Store Bool :=
  sampleStore (fun p => if p = "alice" then some ⟨some 7, .billing, false⟩ else none)
    (fun p => if p = "alice" then some (recordSubscription
      (sampleSubscription "sub_1" "canceled" (some "alice")) 0 (some 7) 10 none) else none) ["alice"]

/-- Session `true` sweeps at 2000, beside whatever session `false` does. -/
def sweepBeside (other : Billing Unit) (s : Bool) : Billing Unit :=
  if s then sweep (some 2000) else dbSession other

/-- The run up to the commit that takes the policy: after the first `k` commands
    of the sweep, session `false` executes `n` of its own. -/
def duringSweep (other : Billing Unit) (k n : ℕ) :
    Option (Config Cmd.Ans Exn Unit Bool (Store Bool)) :=
  (start (sweepBeside other) lapsedPayer).run exec
    (List.replicate k (true, flashReports (sampleSubscription "sub_1" "active" (some "alice")) 2000) ++
      List.replicate n (false, flashReports (sampleSubscription "sub_1" "active" (some "alice")) 2000) ++
      List.replicate (5 - k) (true, flashReports (sampleSubscription "sub_1" "active" (some "alice")) 2000))

/-- What the last entry of a log shows. -/
def lastTake (cfg : Config Cmd.Ans Exn Unit Bool (Store Bool)) :
    Option (Bool × Bool × Option EntitlementDecision × Option SchedulingSource) :=
  cfg.log.getLast?.map fun e =>
    (e.session && (match e.cmd with
      | .commit => true
      | _ => false), (e.before.nsec.pending true "alice").isSome,
      (e.before.subscription.committed "alice").map (·.decide 2000),
      (e.before.nsec.committed "alice").map (·.schedulingSource))

theorem takes_of_lastTake {cfg : Config Cmd.Ans Exn Unit Bool (Store Bool)}
    {d : Option EntitlementDecision} {src : Option SchedulingSource}
    (h : lastTake cfg = some (true, true, d, src)) :
    ∃ l ec, cfg.log = l ++ [ec] ∧ Takes true "alice" ec ∧
      (ec.before.subscription.committed "alice").map (·.decide 2000) = d ∧
      (ec.before.nsec.committed "alice").map (·.schedulingSource) = src := by
  simp only [lastTake, Option.map_eq_some_iff, Prod.mk.injEq, Bool.and_eq_true] at h
  obtain ⟨ec, hec, ⟨hs, hc⟩, hp, hd, hsrc⟩ := h
  obtain ⟨l, hl⟩ := List.getLast?_eq_some_iff.1 hec
  refine ⟨l, ec, hl, ⟨hs, ?_, ?_⟩, hd, hsrc⟩
  · revert hc
    cases ec.cmd <;> simp
  · intro hnone
    rw [hnone] at hp
    cases hp

/-- **The sweep undoes what is newer.**  A renewal that commits after the select
    loses its policy, and so does an admin's assignment that commits after the
    read of the source. -/
theorem sweep_undoes_newer :
    (∃ cfg l ec, duringSweep (discard (applyEntitlement (some "alice") none false false)) 1 13 =
        some cfg ∧ cfg.log = l ++ [ec] ∧ Takes true "alice" ec ∧ ¬ Lapsed 2000 "alice" ec.before) ∧
      ∃ cfg l ec, duringSweep (setUserSchedulingEndpoint "alice" 3) 2 4 = some cfg ∧
        cfg.log = l ++ [ec] ∧ Takes true "alice" ec ∧ ¬ Lapsed 2000 "alice" ec.before := by
  constructor
  · have h : (duringSweep (discard (applyEntitlement (some "alice") none false false)) 1 13).bind
        lastTake = some (true, true, some .grant, some .billing) := by
      decide
    obtain ⟨cfg, hcfg, hlast⟩ := Option.bind_eq_some_iff.1 h
    obtain ⟨l, ec, hl, htakes, hd, -⟩ := takes_of_lastTake hlast
    refine ⟨cfg, l, ec, hcfg, hl, htakes, ?_⟩
    rintro ⟨⟨row, hrow, hrevoke⟩, -⟩
    rw [hrow, Option.map_some, hrevoke] at hd
    cases hd
  · have h : (duringSweep (setUserSchedulingEndpoint "alice" 3) 2 4).bind lastTake =
        some (true, true, some .revoke, some .admin) := by
      decide
    obtain ⟨cfg, hcfg, hlast⟩ := Option.bind_eq_some_iff.1 h
    obtain ⟨l, ec, hl, htakes, -, hsrc⟩ := takes_of_lastTake hlast
    refine ⟨cfg, l, ec, hcfg, hl, htakes, ?_⟩
    rintro ⟨-, hadmin⟩
    obtain ⟨row, hrow, hr⟩ := Option.map_eq_some_iff.1 hsrc
    exact hadmin row hrow hr

/-- What the other session of a log does to the rows of "alice" where it does not leave them. -/
def otherWrites (cfg : Config Cmd.Ans Exn Unit Bool (Store Bool)) :
    List (Option Pubkey × Option Pubkey × Option (Option SchedulingSource)) :=
  (cfg.log.filter fun e => !e.session).map fun e => (e.cmd.subscriptionKey, e.cmd.nsecWrite,
    (e.before.nsec.pending false "alice").map fun row => row.map (·.schedulingSource))

/-- A session that writes what `setBillingBlock "alice" false` does disturbs no sweep. -/
theorem undisturbed_of_otherWrites {cfg : Config Cmd.Ans Exn Unit Bool (Store Bool)} {st : Store Bool}
    (hq : st.Quiet) (ht : Trace exec st cfg.log cfg.state)
    (h : ∀ w ∈ otherWrites cfg, w.1 = none ∧ (w.2.1 = none ∨ w.2.1 = some "alice") ∧
      w.2.2 ≠ some (some .admin)) : Undisturbed true 2000 cfg.log := by
  have hwrites : ∀ e ∈ cfg.log, e.session = false → e.cmd.subscriptionKey = none ∧
      (e.cmd.nsecWrite = none ∨ e.cmd.nsecWrite = some "alice") ∧
      (e.before.nsec.pending false "alice").map (fun row => row.map (·.schedulingSource)) ≠
        some (some .admin) := by
    intro e he hs
    exact h _ (List.mem_map_of_mem (List.mem_filter.2 ⟨he, by rw [hs]; rfl⟩))
  have hother : ∀ {l l' : List (LogEntry Bool)} {e : LogEntry Bool}, cfg.log = l ++ e :: l' →
      e.session ≠ true → e.session = false ∧ Trace exec st l e.before := by
    intro l l' e hl hs
    rw [hl] at ht
    exact ⟨Bool.eq_false_iff.2 hs, ht.split_cons.1⟩
  -- what the other session has done is in the log
  have hdone : ∀ {l l' : List (LogEntry Bool)} {h₁ h₂ : Hist} {c : Cmd} {a : c.Ans}, cfg.log = l ++ l' →
      own false l = h₁ ++ ⟨c, a⟩ :: h₂ → c.subscriptionKey = none ∧
        (c.nsecWrite = none ∨ c.nsecWrite = some "alice") := by
    intro l l' h₁ h₂ c a hl hown
    obtain ⟨f, hf, hfs, hfc⟩ := mem_own (x := ⟨c, a⟩) (s := false) (l := l) (by rw [hown]; simp)
    obtain ⟨hkey, hwrite, -⟩ := hwrites f (by rw [hl]; exact List.mem_append_left _ hf) hfs
    rw [show f.cmd = c from congrArg Sigma.fst hfc] at hkey hwrite
    exact ⟨hkey, hwrite⟩
  constructor
  · intro p l₁ es m e l₂ ec l₃ hl _ _ _ hs _ r hr
    have hl' : cfg.log = (l₁ ++ es :: m) ++ e :: (l₂ ++ ec :: l₃) := by rw [hl]; simp
    obtain ⟨hfalse, htrace⟩ := hother hl' hs
    rw [hfalse] at hr
    obtain ⟨h₁, c, a, h₂, hown, hc, -⟩ :=
      wrote_subscription htrace (hq.subscription_pending false p) (by simp [hr])
    cases hc.symm.trans (hdone hl' hown).1
  · intro p l₁ er m e l₂ ec l₃ hl _ _ _ _ hs _ row hrow
    have hl' : cfg.log = (l₁ ++ er :: m) ++ e :: (l₂ ++ ec :: l₃) := by rw [hl]; simp
    obtain ⟨hfalse, htrace⟩ := hother hl' hs
    rw [hfalse] at hrow
    obtain ⟨h₁, c, a, h₂, hown, hc, -⟩ := wrote_nsec htrace (hq.nsec_pending false p) (by simp [hrow])
    have hwrite := (hdone hl' hown).2
    rw [hc] at hwrite
    obtain rfl : p = "alice" := by simpa using hwrite
    have hsource := (hwrites e (by rw [hl]; simp) hfalse).2.2
    rw [hrow] at hsource
    intro hadmin
    exact hsource (by rw [← hadmin]; rfl)

/-- A payer who is unblocked while the sweep runs, which changes nothing, loses the policy. -/
theorem sweep_takes_lapsed_beside :
    ∃ cfg, ∃ l : List (LogEntry Bool), ∃ ec, duringSweep (discard (setBillingBlock "alice" false)) 2 5 = some cfg ∧
      cfg.log = l ++ [ec] ∧ (∃ e ∈ l, e.session = false ∧ e.cmd = .commit) ∧
      Takes true "alice" ec ∧ Lapsed 2000 "alice" ec.before := by
  have h : (duringSweep (discard (setBillingBlock "alice" false)) 2 5).bind lastTake =
      some (true, true, some .revoke, some .billing) := by
    decide
  have hwrites : (duringSweep (discard (setBillingBlock "alice" false)) 2 5).all (fun cfg =>
      (otherWrites cfg).all fun w => w.1 = none ∧ (w.2.1 = none ∨ w.2.1 = some "alice") ∧
        w.2.2 ≠ some (some .admin)) = true := by
    decide
  have hcommits : (duringSweep (discard (setBillingBlock "alice" false)) 2 5).map (fun cfg =>
      cfg.log.any fun e => !e.session && (match e.cmd with
        | .commit => true
        | _ => false)) = some true := by
    decide
  obtain ⟨cfg, hcfg, hlast⟩ := Option.bind_eq_some_iff.1 h
  obtain ⟨l, ec, hl, htakes, -, -⟩ := takes_of_lastTake hlast
  rw [hcfg, Option.all_some, List.all_eq_true] at hwrites
  have hu : Undisturbed true 2000 cfg.log := by
    obtain ⟨es, hes, ht⟩ := Config.run_trace hcfg
    have hlog : cfg.log = es := hes
    rw [← hlog] at ht
    exact undisturbed_of_otherWrites (sampleStore_quiet _ _ _) ht fun w hw => of_decide_eq_true (hwrites w hw)
  rw [hcfg, Option.map_some, Option.some.injEq, List.any_eq_true] at hcommits
  obtain ⟨e, he, hcommit⟩ := hcommits
  rw [Bool.and_eq_true] at hcommit
  have hs : e.session = false := by simpa using hcommit.1
  refine ⟨cfg, l, ec, hcfg, hl, ⟨e, ?_, hs, ?_⟩, htakes, sweep_takes_lapsed
    (sweepBeside (discard (setBillingBlock "alice" false))) true rfl (sampleStore_quiet _ _ _) hcfg
    (Or.inl rfl) hu l ec [] "alice" hl htakes⟩
  · rw [hl, List.mem_append, List.mem_singleton] at he
    refine he.resolve_right ?_
    rintro rfl
    rw [htakes.1] at hs
    cases hs
  · have hc := hcommit.2
    revert hc
    cases e.cmd <;> simp

end BrainstormServer
