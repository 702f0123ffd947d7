/-
  Entitlement handlers of one user, in any interleaving.

  * every read of Flash and every write is made under the user's lock
    (`Disciplined`), so two handlers that ask Flash do not overlap
    (`endsTx_between`): by the time the later one asks, the earlier one has
    committed all it will ever write (`settled_of_endsTx`);
  * from the lock to the commit a handler sees the rows that were committed
    when it took the lock (`Draft`), so it commits the resolution of its last
    answer over these (`commit_of_written`);
  * hence the handler with the last deciding read prevails
    (`handlers_converge`), unless the columns do not hold what Flash reports
    (`refused_record_keeps_older_view`).
-/
import BrainstormServer.Billing.History

namespace BrainstormServer

open Conc Prog

variable {S : Type} [DecidableEq S] {s : S} {p : Pubkey}

/-! ## Handlers do not overlap -/

/-- Every read of Flash and every write in the log is made under the lock of `p`. -/
def Disciplined (p : Pubkey) (log : List (LogEntry S)) : Prop :=
  ∀ l₁ (e : LogEntry S) l₂, log = l₁ ++ e :: l₂ → UnderLock p (own e.session l₁) e.cmd

theorem Disciplined.locked {log : List (LogEntry S)} (h : Disciplined p log) : Locked p log := by
  intro l₁ e l₂ hl hw
  refine (h l₁ e l₂ hl ?_).1
  rcases hw with hw | hw
  · exact Or.inr (Or.inl (by simp [hw]))
  · exact Or.inr (Or.inr (by simp [hw]))

def asks (e : LogEntry S) : Prop := ∃ handle, e.cmd = .fetchSubscription handle

omit [DecidableEq S] in
theorem asks_not_endsTx {e : LogEntry S} (h : asks e) : ¬ e.cmd.endsTx = true := by
  obtain ⟨handle, hc⟩ := h
  simp [hc, Cmd.endsTx]

/-- Between the reads of Flash of two sessions the first one ends its transaction. -/
theorem endsTx_between {log l₁ m l₂ : List (LogEntry S)} {e₁ e₂ : LogEntry S} {st st' : Store S}
    (hd : Disciplined p log) (ht : Trace exec st log st')
    (hlog : log = l₁ ++ e₁ :: (m ++ e₂ :: l₂)) (h₁ : asks e₁) (h₂ : asks e₂)
    (hs : e₁.session ≠ e₂.session) : ∃ x ∈ own e₁.session m, x.1.endsTx = true := by
  by_contra hno
  push Not at hno
  -- otherwise both would hold the user when the second one asks
  have hlog' : log = (l₁ ++ e₁ :: m) ++ e₂ :: l₂ := by rw [hlog]; simp
  have hfirst : Holds p (own e₁.session (l₁ ++ e₁ :: m)) := by
    rw [own_append, own_cons_self rfl]
    refine (hd l₁ e₁ _ hlog (Or.inl h₁)).1.append fun x hx => ?_
    rcases List.mem_cons.1 hx with rfl | hx
    · exact asks_not_endsTx h₁
    · exact hno x hx
  have hsecond : Holds p (own e₂.session (l₁ ++ e₁ :: m)) :=
    (hd _ e₂ l₂ hlog' (Or.inl h₂)).1
  rw [hlog'] at ht
  exact hs (holds_unique ht.split_cons.1 hfirst hsecond)

/-- A session that has ended a transaction has nothing uncommitted on `p`'s rows,
    and writes nothing any more. -/
theorem settled_of_endsTx {l l' : List (LogEntry S)} {st st' : Store S}
    (hd : Disciplined p (l ++ l')) (ht : Trace exec st l st')
    (hn0 : st.nsec.pending s p = none) (hs0 : st.subscription.pending s p = none)
    (hend : ∃ x ∈ own s l, x.1.endsTx = true) :
    st'.nsec.pending s p = none ∧ st'.subscription.pending s p = none ∧
      ∀ e ∈ l', e.session = s → e.cmd.nsecWrite = none ∧ e.cmd.subscriptionKey = none := by
  obtain ⟨x, hx, hxend⟩ := hend
  -- a write that is still uncommitted has no end of a transaction on either side
  have hopen : ∀ h₁ (c : Cmd) a h₂, own s l = h₁ ++ ⟨c, a⟩ :: h₂ →
      (c.nsecWrite = some p ∨ c.subscriptionKey = some p) →
      ¬ ∀ y ∈ h₂, ¬ y.1.endsTx = true := by
    intro h₁ c a h₂ ho hw hafter
    obtain ⟨a', e, b, rfl, rfl, hc, rfl, -⟩ := own_split ho
    have hcmd : e.cmd = c := congrArg Sigma.fst hc
    have hlog : a' ++ e :: b ++ l' = a' ++ e :: (b ++ l') := by simp
    have hbefore := (hd a' e _ hlog (by
      rcases hw with hw | hw
      · exact Or.inr (Or.inl (by simp [hcmd, hw]))
      · exact Or.inr (Or.inr (by simp [hcmd, hw])))).2.1
    rw [ho] at hx
    rcases List.mem_append.1 hx with hx | hx
    · exact hbefore x hx hxend
    · rcases List.mem_cons.1 hx with rfl | hx
      · exact not_endsTx_of_write hw hxend
      · exact hafter x hx hxend
  refine ⟨?_, ?_, fun e he hs => ?_⟩
  · by_contra hp
    obtain ⟨h₁, c, a, h₂, ho, hw, hafter⟩ := wrote_nsec ht hn0 hp
    exact hopen h₁ c a h₂ ho (Or.inl hw) hafter
  · by_contra hp
    obtain ⟨h₁, c, a, h₂, ho, hw, hafter⟩ := wrote_subscription ht hs0 hp
    exact hopen h₁ c a h₂ ho (Or.inr hw) hafter
  · obtain ⟨a, b, rfl⟩ := List.append_of_mem he
    have hlog : l ++ (a ++ e :: b) = (l ++ a) ++ e :: b := by simp
    by_contra hw
    have hbefore := (hd _ e b hlog (by
      cases h1 : e.cmd.nsecWrite with
      | some q => exact Or.inr (Or.inl rfl)
      | none =>
        cases h2 : e.cmd.subscriptionKey with
        | some q => exact Or.inr (Or.inr rfl)
        | none => exact absurd ⟨h1, h2⟩ hw)).2.1
    rw [hs, own_append] at hbefore
    exact hbefore x (List.mem_append_left _ hx) hxend

/-! ## From the lock to the commit -/

/-- The committed rows of `p` are `rows`, of which session `s` has written `nsec`
    and `subscription` and loaded nothing else. -/
structure Draft (s : S) (p : Pubkey) (rows : Option BrainstormNsec × Option UserSubscription)
    (nsec : Option (Option BrainstormNsec)) (subscription : Option (Option UserSubscription))
    (st : Store S) : Prop where
  committed : st.rowsOf p = rows
  nsec : st.nsec.pending s p = nsec
  subscription : st.subscription.pending s p = subscription
  loaded : ∀ row, st.loaded s p = some row → rows.2 = some row

section
variable {rows : Option BrainstormNsec × Option UserSubscription}
  {nsec : Option (Option BrainstormNsec)} {subscription : Option (Option UserSubscription)}

/-- A read loads only what the session sees. -/
theorem exec_read_loaded {c : Cmd} {st st' : Store S} {ω : Outside} {a : c.Ans}
    (h : exec s c st ω = some (a, st')) (hc : c.isRead = true) {row : UserSubscription}
    (hl : st'.loaded s p = some row) :
    st.loaded s p = some row ∨ st.subscription.view s p = some row := by
  rcases exec_loaded h with hsame | ⟨ps, rfl⟩ | ⟨q, f, hq, -, -⟩ | rfl | rfl
  · exact Or.inl (by rw [← hsame]; exact hl)
  · exact remember_loaded hl
  · rw [(isRead_writes hc).2] at hq
    cases hq
  · cases hc
  · cases hc

omit [DecidableEq S] in
theorem Draft.view_subscription {st : Store S} (h : Draft s p rows nsec none st) :
    st.subscription.view s p = rows.2 := by
  rw [TxTable.view_eq_committed h.subscription, ← h.committed]
  rfl

omit [DecidableEq S] in
theorem Draft.view_nsec {st : Store S} (h : Draft s p rows none subscription st) :
    st.nsec.view s p = rows.1 := by
  rw [TxTable.view_eq_committed h.nsec, ← h.committed]
  rfl

/-- A draft is kept by whatever others do as long as the committed rows are, and
    by reads of its session before it writes the subscription row. -/
theorem Draft.step {e : LogEntry S} (h : Draft s p rows nsec subscription e.before)
    (he : e.Executed exec) (hread : e.session = s → e.cmd.isRead = true ∧ subscription = none)
    (hrows : e.after.rowsOf p = e.before.rowsOf p) :
    Draft s p rows nsec subscription e.after := by
  by_cases hs : e.session = s
  · obtain ⟨hc, rfl⟩ := hread hs
    subst hs
    have hend : e.cmd.endsTx = false := by simpa using isRead_endsTx hc
    obtain ⟨ω, he⟩ := he
    refine ⟨hrows.trans h.committed, ?_, ?_, fun row hl => ?_⟩
    · rw [exec_nsecWrite he hend (by simp [(isRead_writes hc).1])]
      exact h.nsec
    · rw [(exec_stmt he hend).subscription.pending (by simp [(isRead_writes hc).2])]
      exact h.subscription
    · rcases exec_read_loaded he hc hl with hl | hv
      · exact h.loaded row hl
      · rw [← h.view_subscription]
        exact hv
  · obtain ⟨hn, hsub, hl⟩ := exec_other he hs
    refine ⟨hrows.trans h.committed, by rw [hn, h.nsec], by rw [hsub, h.subscription], ?_⟩
    rw [hl]
    exact h.loaded

/-- Session `s` holds `p` after the part `l` of the log, with a draft of `p`'s rows. -/
structure Stage (s : S) (p : Pubkey) (rows : Option BrainstormNsec × Option UserSubscription)
    (nsec : Option (Option BrainstormNsec)) (subscription : Option (Option UserSubscription))
    (st₀ : Store S) (l : List (LogEntry S)) (st : Store S) : Prop where
  trace : Trace exec st₀ l st
  holds : Holds p (own s l)
  draft : Draft s p rows nsec subscription st

/-- A stage lasts while its session only reads; and does nothing, once it has
    written the subscription row. -/
theorem Stage.reads {st₀ st st' : Store S} {l m : List (LogEntry S)}
    (h : Stage s p rows nsec subscription st₀ l st) (hl : Locked p (l ++ m)) (hq : st₀.Quiet)
    (ht : Trace exec st m st') (hm : Reads (own s m)) (hsub : own s m = [] ∨ subscription = none) :
    Stage s p rows nsec subscription st₀ (l ++ m) st' := by
  have hend : ∀ x ∈ own s m, ¬ x.1.endsTx = true := fun x hx => isRead_endsTx (hm x hx)
  refine ⟨h.trace.append ht, by rw [own_append]; exact h.holds.append hend, ?_⟩
  refine Trace.inv_split (Draft s p rows nsec subscription) m ht ?_ h.draft
  intro m₁ e m₂ hsplit ht₁ he hI
  have hmem : e ∈ m := by rw [hsplit]; simp
  refine hI.step he (fun hs => ?_) ?_
  · have hx := own_of_mem hmem
    rw [hs] at hx
    refine ⟨hm _ hx, hsub.resolve_left fun hnil => ?_⟩
    rw [hnil] at hx
    cases hx
  · -- the step is one of the stretch in which the lock is held
    have htrace : Trace exec st (m₁ ++ [e]) e.after := by
      obtain ⟨ω, he⟩ := he
      exact ht₁.append (.cons ω he (.nil _))
    have hsub₁ : ∀ x ∈ own s (m₁ ++ [e]), ¬ x.1.endsTx = true := by
      intro x hx
      refine hend x ?_
      have hm' : m = (m₁ ++ [e]) ++ m₂ := by rw [hsplit]; simp
      rw [hm', own_append]
      exact List.mem_append_left _ hx
    have hsub₂ : ∀ x ∈ own s m₁, ¬ x.1.endsTx = true := by
      intro x hx
      refine hsub₁ x ?_
      rw [own_append]
      exact List.mem_append_left _ hx
    have hl₁ : Locked p (l ++ (m₁ ++ [e])) := by
      have hm' : l ++ m = (l ++ (m₁ ++ [e])) ++ m₂ := by rw [hsplit]; simp
      rw [hm'] at hl
      exact hl.take
    have hl₂ : Locked p (l ++ m₁) := by
      rw [← List.append_assoc] at hl₁
      exact hl₁.take
    rw [rowsOf_of_holds hl₁ (hq.nsec_pending · p) (hq.subscription_pending · p) h.trace htrace h.holds hsub₁,
      rowsOf_of_holds hl₂ (hq.nsec_pending · p) (hq.subscription_pending · p) h.trace ht₁ h.holds hsub₂]

/-- The next command of the session, after some reads. -/
theorem Stage.next {st₀ st st' : Store S} {l m : List (LogEntry S)} {r h' : Hist} {c : Cmd}
    {a : c.Ans} (h : Stage s p rows nsec subscription st₀ l st) (hl : Locked p (l ++ m))
    (hq : st₀.Quiet) (ht : Trace exec st m st') (ho : own s m = r ++ ⟨c, a⟩ :: h') (hr : Reads r)
    (hsub : r = [] ∨ subscription = none) :
    ∃ m₁ e m₂, m = m₁ ++ e :: m₂ ∧ e.session = s ∧ (⟨e.cmd, e.ans⟩ : Σ c, Cmd.Ans c) = ⟨c, a⟩ ∧
      own s m₂ = h' ∧ e.Executed exec ∧ Stage s p rows nsec subscription st₀ (l ++ m₁) e.before ∧
      Trace exec e.after m₂ st' := by
  obtain ⟨m₁, e, m₂, rfl, hs, hc, rfl, ho₂⟩ := own_split ho
  obtain ⟨ht₁, he, ht₂⟩ := ht.split_cons
  have hl₁ : Locked p (l ++ m₁) := by
    rw [← List.append_assoc] at hl
    exact hl.take
  exact ⟨m₁, e, m₂, rfl, hs, hc, ho₂, he, h.reads hl₁ hq ht₁ hr hsub, ht₂⟩

/-- A command of the session that ends no transaction leads to the next stage. -/
theorem Stage.after {st₀ : Store S} {l : List (LogEntry S)} {e : LogEntry S}
    {nsec' : Option (Option BrainstormNsec)} {subscription' : Option (Option UserSubscription)}
    (h : Stage s p rows nsec subscription st₀ l e.before) (he : e.Executed exec)
    (hs : e.session = s) (hc : ¬ e.cmd.endsTx = true)
    (hd : Draft s p rows nsec' subscription' e.after) :
    Stage s p rows nsec' subscription' st₀ (l ++ [e]) e.after := by
  refine ⟨?_, ?_, hd⟩
  · obtain ⟨ω, he⟩ := he
    exact h.trace.append (.cons ω he (.nil _))
  · rw [own_append, own_cons_self hs, own_nil]
    refine h.holds.append fun x hx => ?_
    rw [List.mem_singleton.1 hx]
    exact hc

theorem pending_of_reads {st st' : Store S} {l : List (LogEntry S)} (ht : Trace exec st l st')
    (hn0 : st.nsec.pending s p = none) (hs0 : st.subscription.pending s p = none)
    (hr : Reads (own s l)) :
    st'.nsec.pending s p = none ∧ st'.subscription.pending s p = none := by
  constructor
  · by_contra hp
    obtain ⟨h₁, c, a, h₂, ho, hw, -⟩ := wrote_nsec ht hn0 hp
    have hc := hr ⟨c, a⟩ (by rw [ho]; simp)
    rw [(isRead_writes hc).1] at hw
    cases hw
  · by_contra hp
    obtain ⟨h₁, c, a, h₂, ho, hw, -⟩ := wrote_subscription ht hs0 hp
    have hc := hr ⟨c, a⟩ (by rw [ho]; simp)
    rw [(isRead_writes hc).2] at hw
    cases hw

/-- The first stage: the lock has just been taken. -/
theorem stage_of_lock {st₀ : Store S} {l : List (LogEntry S)} {e : LogEntry S} {skip : Bool}
    (hq : st₀.Quiet) (ht : Trace exec st₀ l e.before) (he : e.Executed exec) (hs : e.session = s)
    (hc : (⟨e.cmd, e.ans⟩ : Σ c, Cmd.Ans c) = ⟨.lockUserForUpdate p skip, true⟩)
    (ho : own s l = [⟨.brainstormNsecExists p, true⟩]) :
    ∃ row, e.after.nsec.committed p = some row ∧
      Stage s p (e.after.rowsOf p) none none st₀ (l ++ [e]) e.after := by
  have hr : Reads (own s l) := by
    rw [ho]
    exact .singleton _ _ rfl
  obtain ⟨hn, hsub⟩ := pending_of_reads ht (hq.nsec_pending s p) (hq.subscription_pending s p) hr
  have hloaded : e.before.loaded s p = none := by
    refine ht.inv (I := fun st => st.loaded s p = none) ?_ (by rw [hq.loaded])
    intro e' he' ω hω hI
    by_cases hs' : e'.session = s
    · have hmem := own_of_mem he'
      rw [hs', ho, List.mem_singleton] at hmem
      obtain ⟨ω', hω'⟩ := Entry.Executed.as ⟨ω, hω⟩ hs' hmem
      simp only [exec, Option.some.injEq, Prod.mk.injEq] at hω'
      rw [← hω'.2]
      exact hI
    · rw [(exec_other ⟨ω, hω⟩ hs').2.2]
      exact hI
  obtain ⟨ω, hω⟩ := he.as hs hc
  obtain ⟨hsome, hafter⟩ := exec_lockUserForUpdate hω
  rw [TxTable.view_eq_committed hn] at hsome
  obtain ⟨row, hrow⟩ := Option.isSome_iff_exists.1 hsome
  refine ⟨row, by rw [hafter]; exact hrow, ?_, ?_, rfl, ?_, ?_, fun row hl => ?_⟩
  · obtain ⟨ω, hω⟩ := he
    exact ht.append (.cons ω hω (.nil _))
  · rw [own_append, ho, own_cons_self hs, own_nil, hc]
    exact ⟨_, skip, [], rfl, fun x hx => absurd hx List.not_mem_nil⟩
  · rw [hafter]
    exact hn
  · rw [hafter]
    exact hsub
  · rw [hafter] at hl
    have hl' : e.before.loaded s p = some row := hl
    rw [hloaded] at hl'
    cases hl'

theorem Draft.assigned {st st' : Store S} {ω : Outside} {row : BrainstormNsec}
    {old : Option UserSubscription} {i : Option SchedulingId} {src : SchedulingSource} {a : Unit}
    (h : Draft s p (some row, old) none subscription st)
    (he : exec s (.setSchedulingForPubkey p i src) st ω = some (a, st')) :
    Draft s p (some row, old)
      (some (some { row with
        schedulingId := i
        schedulingSource := src })) subscription st' := by
  obtain ⟨-, rfl⟩ := exec_setSchedulingForPubkey he
  refine ⟨h.committed, ?_, h.subscription, h.loaded⟩
  rw [h.view_nsec]
  simp [TxTable.write]

theorem Draft.recorded {st st' : Store S} {ω : Outside} {sub : FlashSubscription} {i : ℕ}
    {granted : Option SchedulingId} {a : Unit} (h : Draft s p rows nsec none st)
    (he : exec s (.upsertUserSubscription p sub i granted) st ω = some (a, st')) :
    Draft s p rows nsec (some (some (recordSubscription sub i granted ω.now rows.2))) st' := by
  obtain ⟨-, rfl⟩ := exec_upsertUserSubscription he
  refine ⟨h.committed, h.nsec, ?_, h.loaded⟩
  rw [h.view_subscription]
  simp [TxTable.write]

theorem Draft.commit {st st' : Store S} {ω : Outside} {a : Unit}
    (h : Draft s p rows nsec subscription st) (he : exec s .commit st ω = some (a, st')) :
    st'.rowsOf p = (nsec.getD rows.1, subscription.getD rows.2) := by
  simp only [exec, Option.some.injEq, Prod.mk.injEq] at he
  obtain ⟨-, rfl⟩ := he
  rw [← h.committed, ← h.nsec, ← h.subscription]
  rfl

/-- The answers a decision rests on are those of the committed rows. -/
theorem Stage.deliberated {st₀ st st' : Store S} {l m : List (LogEntry S)} {t h' : Hist}
    {row : BrainstormNsec} {old existing : Option UserSubscription} {sub : FlashSubscription}
    {plan : ℕ × BillingPlan} {now : DateTime} {blocked : Bool} {source : SchedulingSource}
    (h : Stage s p (some row, old) none none st₀ l st) (hl : Locked p (l ++ m)) (hq : st₀.Quiet)
    (ht : Trace exec st m st') (ho : own s m = t ++ h')
    (hd : Deliberated p t existing sub plan now blocked source) :
    existing = old ∧ blocked = row.billingBlocked ∧ source = row.schedulingSource := by
  -- the stage at which a read of `t` was made
  have hread : ∀ c a, (⟨c, a⟩ : Σ c, Cmd.Ans c) ∈ t →
      ∃ st₁ st₂ ω, Draft s p (some row, old) none none st₁ ∧ exec s c st₁ ω = some (a, st₂) := by
    intro c a hmem
    obtain ⟨t₁, t₂, rfl⟩ := List.append_of_mem hmem
    have hr₁ : Reads t₁ := fun x hx => hd.reads x (List.mem_append_left _ hx)
    have ho₁ : own s m = t₁ ++ ⟨c, a⟩ :: (t₂ ++ h') := by rw [ho]; simp
    obtain ⟨m₁, e, m₂, -, hs, hc, -, he, hst, -⟩ := h.next hl hq ht ho₁ hr₁ (Or.inr rfl)
    obtain ⟨ω, hω⟩ := he.as hs hc
    exact ⟨e.before, e.after, ω, hst.draft, hω⟩
  refine ⟨?_, ?_, ?_⟩
  · obtain ⟨st₁, st₂, ω, hdr, he⟩ := hread _ _ hd.existing
    rw [exec_getUserSubscription he fun r hr => by rw [hdr.view_subscription]; exact hdr.loaded r hr]
    exact hdr.view_subscription
  · obtain ⟨st₁, st₂, ω, hdr, he⟩ := hread _ _ hd.blocked
    simp only [exec, Option.some.injEq, Prod.mk.injEq, hdr.view_nsec, Option.map_some,
      Option.getD_some] at he
    exact he.1.symm
  · obtain ⟨st₁, st₂, ω, hdr, he⟩ := hread _ _ hd.source
    simp only [exec, Option.some.injEq, Prod.mk.injEq, hdr.view_nsec, Option.map_some,
      Option.getD_some] at he
    exact he.1.symm

/-- From the row on: the upsert, then the commit. -/
theorem Stage.commit {st₀ st st' : Store S} {l m : List (LogEntry S)} {t z : Hist}
    {sub : FlashSubscription} {i : ℕ} {granted : Option SchedulingId}
    (h : Stage s p rows nsec none st₀ l st) (hl : Locked p (l ++ m)) (hq : st₀.Quiet)
    (ht : Trace exec st m st') (hr : Reads t)
    (ho : own s m = t ++ ⟨.upsertUserSubscription p sub i granted, ()⟩ :: ⟨.commit, ()⟩ :: z) :
    ∃ k, ∃ e : LogEntry S, ∃ k' syncedAt, m = k ++ e :: k' ∧ e.session = s ∧ e.cmd = .commit ∧ own s k' = z ∧
      Holds p (own s (l ++ k)) ∧ e.before.rowsOf p = rows ∧
      e.after.rowsOf p =
        (nsec.getD rows.1, some (recordSubscription sub i granted syncedAt rows.2)) := by
  obtain ⟨m₁, e₁, m₂, rfl, hs₁, hc₁, ho₂, he₁, hst₁, ht₂⟩ := h.next hl hq ht ho hr (Or.inr rfl)
  obtain ⟨ω₁, hω₁⟩ := he₁.as hs₁ hc₁
  have hcmd₁ : e₁.cmd = .upsertUserSubscription p sub i granted := congrArg Sigma.fst hc₁
  have hst₂ := hst₁.after he₁ hs₁ (by simp [hcmd₁, Cmd.endsTx]) (hst₁.draft.recorded hω₁)
  have hl₂ : Locked p (l ++ m₁ ++ [e₁] ++ m₂) := by simpa using hl
  have hnil : Reads [] := fun x hx => absurd hx List.not_mem_nil
  obtain ⟨m₃, e₂, m₄, rfl, hs₂, hc₂, ho₃, he₂, hst₃, -⟩ :=
    hst₂.next hl₂ hq ht₂ ho₂ hnil (Or.inl rfl)
  obtain ⟨ω₂, hω₂⟩ := he₂.as hs₂ hc₂
  refine ⟨m₁ ++ e₁ :: m₃, e₂, m₄, ω₁.now, by simp, hs₂, congrArg Sigma.fst hc₂, ho₃, ?_,
    hst₃.draft.committed, hst₃.draft.commit hω₂⟩
  simpa using hst₃.holds

/-- From the resolution on: the assignment if there is one, the upsert, the commit. -/
theorem Stage.assignment {st₀ st st' : Store S} {l m : List (LogEntry S)} {t z : Hist}
    {row : BrainstormNsec} {old : Option UserSubscription} {sub : FlashSubscription} {i : ℕ}
    {res : Resolution} (h : Stage s p (some row, old) none none st₀ l st) (hl : Locked p (l ++ m))
    (hq : st₀.Quiet) (ht : Trace exec st m st') (hr : Reads t)
    (ho : own s m = t ++ (assignment p res ++
      [⟨.upsertUserSubscription p sub i res.grantedSchedulingId, ()⟩, ⟨.commit, ()⟩] ++ z)) :
    ∃ k, ∃ e : LogEntry S, ∃ k' syncedAt, m = k ++ e :: k' ∧ e.session = s ∧ e.cmd = .commit ∧ own s k' = z ∧
      Holds p (own s (l ++ k)) ∧ e.before.rowsOf p = (some row, old) ∧
      e.after.rowsOf p = (some (res.assign row),
        some (recordSubscription sub i res.grantedSchedulingId syncedAt old)) := by
  rcases assignment_cases p res with ⟨src, ha, hassign⟩ | ⟨ha, hassign⟩
  · rw [ha] at ho
    rw [hassign]
    obtain ⟨m₁, e₁, m₂, rfl, hs₁, hc₁, ho₂, he₁, hst₁, ht₂⟩ := h.next hl hq ht ho hr (Or.inr rfl)
    obtain ⟨ω₁, hω₁⟩ := he₁.as hs₁ hc₁
    have hcmd₁ : e₁.cmd = .setSchedulingForPubkey p res.schedulingId src := congrArg Sigma.fst hc₁
    have hst₂ := hst₁.after he₁ hs₁ (by simp [hcmd₁, Cmd.endsTx]) (hst₁.draft.assigned hω₁)
    have hl₂ : Locked p (l ++ m₁ ++ [e₁] ++ m₂) := by simpa using hl
    have hnil : Reads [] := fun x hx => absurd hx List.not_mem_nil
    obtain ⟨k, e, k', syncedAt, rfl, hs, hc, hz, hholds, hbefore, hafter⟩ :=
      hst₂.commit hl₂ hq ht₂ hnil ho₂
    exact ⟨m₁ ++ e₁ :: k, e, k', syncedAt, by simp, hs, hc, hz, by simpa using hholds, hbefore,
      hafter⟩
  · rw [ha] at ho
    rw [hassign]
    obtain ⟨k, e, k', syncedAt, rfl, hs, hc, hz, hholds, hbefore, hafter⟩ :=
      h.commit hl hq ht hr ho
    exact ⟨k, e, k', syncedAt, rfl, hs, hc, hz, hholds, hbefore, hafter⟩

end

/-- **A call that reached `_grant_and_record`** commits the resolution of its last
    answer, over the rows that were committed while it held the user. -/
theorem commit_of_written {st₀ st : Store S} {log : List (LogEntry S)} {skip : Bool} {t z : Hist}
    {existing : Option UserSubscription} {sub : FlashSubscription} {plan : ℕ × BillingPlan}
    {now : DateTime} {blocked : Bool} {source : SchedulingSource} {res : Resolution}
    (hq : st₀.Quiet) (ht : Trace exec st₀ log st) (hl : Locked p log)
    (hd : Deliberated p t existing sub plan now blocked source)
    (hres : res = resolveEntitlement (sub.decide now) blocked (isAdminHeld source)
      plan.2.schedulingId (existing.bind (·.grantedSchedulingId)))
    (ho : own s log = Locked₂ p skip t ++ (assignment p res ++
      [⟨.upsertUserSubscription p sub plan.1 res.grantedSchedulingId, ()⟩, ⟨.commit, ()⟩]) ++ z) :
    ∃ k : List (LogEntry S), ∃ e : LogEntry S, ∃ k' row syncedAt, log = k ++ e :: k' ∧ e.session = s ∧ e.cmd = .commit ∧
      (∀ x ∈ own s k, ¬ x.1.endsTx = true) ∧ e.before.nsec.committed p = some row ∧
      res = entitlementFor row (e.before.subscription.committed p) sub plan.2 now ∧
      e.after.rowsOf p = (some (res.assign row), some (recordSubscription sub plan.1
        res.grantedSchedulingId syncedAt (e.before.subscription.committed p))) := by
  have ho' : own s log = [⟨.brainstormNsecExists p, true⟩] ++
      ⟨.lockUserForUpdate p skip, true⟩ :: (t ++ (assignment p res ++
      [⟨.upsertUserSubscription p sub plan.1 res.grantedSchedulingId, ()⟩, ⟨.commit, ()⟩] ++ z)) := by
    rw [ho]
    simp [Locked₂]
  obtain ⟨l, e₀, m, rfl, hs₀, hc₀, hl₀, hm⟩ := own_split ho'
  obtain ⟨ht₁, he₀, ht₂⟩ := ht.split_cons
  obtain ⟨row, hrow, hst⟩ := stage_of_lock hq ht₁ he₀ hs₀ hc₀ hl₀
  have hl₁ : Locked p (l ++ [e₀] ++ m) := by simpa using hl
  have hrows : e₀.after.rowsOf p = (some row, e₀.after.subscription.committed p) := by
    rw [Store.rowsOf, hrow]
  rw [hrows] at hst
  obtain ⟨rfl, rfl, rfl⟩ := hst.deliberated hl₁ hq ht₂ hm hd
  obtain ⟨k, e, k', syncedAt, rfl, hs, hc, hz, hholds, hbefore, hafter⟩ :=
    hst.assignment hl₁ hq ht₂ hd.reads hm
  simp only [Store.rowsOf, Prod.mk.injEq] at hbefore
  refine ⟨l ++ e₀ :: k, e, k', row, syncedAt, by simp, hs, hc, ?_, hbefore.1, ?_, ?_⟩
  · -- what the call did before its commit
    have hk : own s (l ++ e₀ :: k) ++ ⟨e.cmd, e.ans⟩ :: z = (Locked₂ p skip t ++ (assignment p res ++
        [⟨.upsertUserSubscription p sub plan.1 res.grantedSchedulingId, ()⟩])) ++ ⟨.commit, ()⟩ :: z := by
      rw [← hz, ← own_cons_self hs, ← own_append]
      simpa [hz] using ho
    rw [(List.append_inj' hk (by simp)).1]
    intro x hx
    rcases List.mem_append.1 hx with hx | hx
    · exact endsTx_locked₂ hd.reads x hx
    · rcases assignment_cases p res with ⟨src, ha, -⟩ | ⟨ha, -⟩
      · rw [ha] at hx
        simp only [List.cons_append, List.nil_append, List.mem_cons, List.not_mem_nil, or_false] at hx
        rcases hx with rfl | rfl <;> simp [Cmd.endsTx]
      · rw [ha] at hx
        rw [List.mem_singleton.1 hx]
        simp [Cmd.endsTx]
  · rw [hbefore.2]
    exact hres
  · rw [hbefore.2]
    exact hafter

/-! ## The last deciding read -/

/-- The calls: session `s` makes one for `p`, with the handle and the flags given it. -/
def calls (p : Pubkey) (subscriptionId : S → Option String) (yieldIfBusy allowUnreferenced : S → Bool)
    (s : S) : Billing EntitlementOutcome :=
  dbSession (applyEntitlement (some p) (subscriptionId s) (yieldIfBusy s) (allowUnreferenced s))

/-- Every session has not begun, or has nothing left to do. -/
def NoCallInProgress {α : Type} (cfg : Config Cmd.Ans Exn α S (Store S)) : Prop :=
  ∀ s, own s cfg.log = [] ∨ (cfg.prog s).done = true

/-- `e` is the deciding read of a call that reached `_grant_and_record`: Flash
    answered `sub`, this is the last answer the session got, and the call went on to ask
    whether the user is blocked. -/
structure DecidingRead (p : Pubkey) (log l₁ : List (LogEntry S)) (e : LogEntry S)
    (l₂ : List (LogEntry S)) (sub : FlashSubscription) : Prop where
  log : log = l₁ ++ e :: l₂
  answer : ∃ handle, (⟨e.cmd, e.ans⟩ : Σ c, Cmd.Ans c) = answer handle sub
  last : ∀ x ∈ own e.session l₂, ¬ IsAnswer x
  reached : ∃ blocked, (⟨.isBillingBlocked p, blocked⟩ : Σ c, Cmd.Ans c) ∈ own e.session l₂

/-- The user's committed rows are those resolved from the last deciding read, over the rows
    committed at that read. -/
def Converged (p : Pubkey) (log : List (LogEntry S)) (st : Store S) : Prop :=
  ∀ l₁ e l₂ sub, DecidingRead p log l₁ e l₂ sub →
    (∀ l₁' e' l₂' sub', DecidingRead p log l₁' e' l₂' sub' → l₁'.length ≤ l₁.length) →
    ∃ row plan now syncedAt, e.before.nsec.committed p = some row ∧
      (⟨.getBillingPlan sub.serviceId sub.planId, some plan⟩ : Σ c, Cmd.Ans c) ∈ own e.session l₂ ∧
      (⟨.utcNow, now⟩ : Σ c, Cmd.Ans c) ∈ own e.session l₂ ∧
      st.rowsOf p =
        (some ((entitlementFor row (e.before.subscription.committed p) sub plan.2 now).assign row),
          some (recordSubscription sub plan.1
            (entitlementFor row (e.before.subscription.committed p) sub plan.2
              now).grantedSchedulingId syncedAt (e.before.subscription.committed p)))

omit [DecidableEq S] in
theorem asks_of_answer {e : LogEntry S} {sub : FlashSubscription}
    (h : ∃ handle, (⟨e.cmd, e.ans⟩ : Σ c, Cmd.Ans c) = answer handle sub) : asks e := by
  obtain ⟨handle, h⟩ := h
  exact ⟨handle, congrArg Sigma.fst h⟩

omit [DecidableEq S] in
theorem calls_obeys (p : Pubkey) (subscriptionId : S → Option String)
    (yieldIfBusy allowUnreferenced : S → Bool) (s : S) :
    (calls p subscriptionId yieldIfBusy allowUnreferenced s).Obeys (UnderLock p)
      (fun _ h => Finished p h) [] :=
  dbSession_obeys (applyEntitlement_obeys _ _ _ _)

/-- What a call has decided on can be recorded. -/
theorem Deliberated.recordable {t u z : Hist} {existing : Option UserSubscription}
    {sub : FlashSubscription} {plan : ℕ × BillingPlan} {now : DateTime} {blocked : Bool}
    {source : SchedulingSource} (hd : Deliberated p t existing sub plan now blocked source)
    (hr : Recordable (u ++ (t ++ z))) : sub.recordable = true := by
  obtain ⟨t₂, ⟨t₁, handle, rfl, hno⟩, hplan, -, -⟩ := hd.since
  obtain ⟨a, b, rfl⟩ := List.append_of_mem hplan
  have hlast : LastAnswer (u ++ (t₁ ++ answer handle sub :: a)) sub a :=
    LastAnswer.prepend ⟨t₁, handle, rfl, fun x hx => hno x (List.mem_append_left _ hx)⟩ u
  have hsplit : u ++ (t₁ ++ answer handle sub ::
      (a ++ ⟨.getBillingPlan sub.serviceId sub.planId, some plan⟩ :: b) ++ z) =
      (u ++ (t₁ ++ answer handle sub :: a)) ++
        ⟨.getBillingPlan sub.serviceId sub.planId, some plan⟩ :: (b ++ z) := by
    simp
  rw [hsplit] at hr
  exact Recordable.of_planned (inHand_of_lastAnswer hlast) hr

/-- A finished session has not come to a resolution, or it has made a deciding read, and
    the committed resolution is that of its answer. -/
theorem finished_cases {log : List (LogEntry S)} (h : Finished p (own s log))
    (hr : Recordable (own s log)) :
    (∀ x ∈ own s log, x.1.looks = true ∨ x.1.endsTx = true) ∨
      ∃ skip t existing sub plan now blocked source res z t₂,
        Deliberated p t existing sub plan now blocked source ∧
        res = resolveEntitlement (sub.decide now) blocked (isAdminHeld source)
          plan.2.schedulingId (existing.bind (·.grantedSchedulingId)) ∧
        own s log = Locked₂ p skip t ++ (assignment p res ++
          [⟨.upsertUserSubscription p sub plan.1 res.grantedSchedulingId, ()⟩, ⟨.commit, ()⟩]) ++ z ∧
        LastAnswer (own s log) sub t₂ ∧
        (⟨.getBillingPlan sub.serviceId sub.planId, some plan⟩ : Σ c, Cmd.Ans c) ∈ t₂ ∧
        (⟨.utcNow, now⟩ : Σ c, Cmd.Ans c) ∈ t₂ ∧
        (⟨.isBillingBlocked p, blocked⟩ : Σ c, Cmd.Ans c) ∈ t₂ := by
  obtain ⟨h₀, z, ho, hend, hz⟩ := h
  rcases hend with ⟨skip, t, existing, sub, plan, now, blocked, source, hd, res, hres, rfl⟩ |
    ⟨skip, t, existing, sub, plan, now, blocked, source, res, hd, hno, rfl⟩ | hlook
  · right
    obtain ⟨t₂, hlast, hplan, hnow, hblocked⟩ := hd.since
    -- what follows the reads holds no answer of Flash
    have hrest : ∀ x ∈ assignment p res ++
        [⟨.upsertUserSubscription p sub plan.1 res.grantedSchedulingId, ()⟩, ⟨.commit, ()⟩] ++ z,
        ¬ IsAnswer x := by
      rintro x hx ⟨handle, sub', rfl⟩
      rcases List.mem_append.1 hx with hx | hx
      · rcases assignment_cases p res with ⟨src, ha, -⟩ | ⟨ha, -⟩ <;> rw [ha] at hx <;>
          simp [answer] at hx
      · exact absurd (hz _ hx) (by simp [answer, Cmd.endsTx])
    have ho' : own s log = [⟨.brainstormNsecExists p, true⟩, ⟨.lockUserForUpdate p skip, true⟩] ++
        (t ++ (assignment p res ++ [⟨.upsertUserSubscription p sub plan.1 res.grantedSchedulingId, ()⟩,
          ⟨.commit, ()⟩] ++ z)) := by
      rw [ho]
      simp [Locked₂]
    have hlast' := (hlast.append hrest).prepend
      [⟨.brainstormNsecExists p, true⟩, ⟨.lockUserForUpdate p skip, true⟩]
    rw [← ho'] at hlast'
    exact ⟨skip, t, existing, sub, plan, now, blocked, source, res, z, _, hd, hres, ho, hlast',
      List.mem_append_left _ hplan, List.mem_append_left _ hnow, List.mem_append_left _ hblocked⟩
  · exfalso
    rw [ho, List.append_assoc, List.append_assoc] at hr
    rw [hd.recordable hr] at hno
    cases hno
  · left
    intro x hx
    rw [ho] at hx
    rcases List.mem_append.1 hx with hx | hx
    · exact Or.inl (hlook x hx)
    · exact Or.inr (hz x hx)

/-- A session that has written is one with a deciding read. -/
theorem deciding_of_write {log : List (LogEntry S)} (h : Finished p (own s log))
    (hr : Recordable (own s log)) {x : Σ c, Cmd.Ans c}
    (hx : x ∈ own s log) (hw : x.1.nsecWrite = some p ∨ x.1.subscriptionKey = some p) :
    ∃ l₁ e l₂ sub, DecidingRead p log l₁ e l₂ sub ∧ e.session = s := by
  rcases finished_cases h hr with hall |
    ⟨_, _, _, sub, plan, _, blocked, _, res, _, t₂, -, -, -, hlast, -, -, hblocked⟩
  · exfalso
    rcases hall x hx with hl | hl
    · simp [isRead_writes (isRead_of_looks hl)] at hw
    · exact not_endsTx_of_write hw hl
  · obtain ⟨t₁, handle, ho, hno⟩ := hlast
    obtain ⟨l₁, e, l₂, rfl, rfl, he, -, rfl⟩ := own_split ho
    exact ⟨l₁, e, l₂, sub, ⟨rfl, ⟨handle, he⟩, hno, blocked, hblocked⟩, rfl⟩

/-- The user's committed rows change only where a session commits writes of them. -/
theorem rowsOf_kept {st st' : Store S} {m : List (LogEntry S)} (ht : Trace exec st m st')
    (h : ∀ m₁ (e : LogEntry S) m₂, m = m₁ ++ e :: m₂ → Trace exec st m₁ e.before → e.cmd = .commit →
      e.before.nsec.pending e.session p = none ∧
        e.before.subscription.pending e.session p = none) :
    st'.rowsOf p = st.rowsOf p := by
  refine Trace.inv_split (fun x => x.rowsOf p = st.rowsOf p) m ht ?_ rfl
  intro m₁ e m₂ hm ht₁ he hI
  rw [← hI]
  exact exec_rowsOf he fun hc => h m₁ e m₂ hm ht₁ hc

/-- A session that never writes has nothing uncommitted. -/
theorem pending_of_no_write {st st' : Store S} {l : List (LogEntry S)} (ht : Trace exec st l st')
    (hq : st.Quiet) (hw : ∀ x ∈ own s l, ¬ (x.1.nsecWrite = some p ∨ x.1.subscriptionKey = some p)) :
    st'.nsec.pending s p = none ∧ st'.subscription.pending s p = none := by
  constructor
  · by_contra hp
    obtain ⟨h₁, c, a, h₂, ho, hc, -⟩ := wrote_nsec ht (hq.nsec_pending s p) hp
    exact hw ⟨c, a⟩ (by rw [ho]; simp) (Or.inl hc)
  · by_contra hp
    obtain ⟨h₁, c, a, h₂, ho, hc, -⟩ := wrote_subscription ht (hq.subscription_pending s p) hp
    exact hw ⟨c, a⟩ (by rw [ho]; simp) (Or.inr hc)

section
variable {st₀ st : Store S} {log : List (LogEntry S)} (hq : st₀.Quiet)
  (ht : Trace exec st₀ log st) (hd : Disciplined p log)
include hq ht hd

/-- **An older view never overwrites a newer one.**  When a session asks Flash,
    another one that has asked before has committed all it ever writes. -/
theorem older_settled {l₁ m l₂ : List (LogEntry S)} {e₁ e₂ : LogEntry S}
    (hlog : log = l₁ ++ e₁ :: (m ++ e₂ :: l₂)) (h₁ : asks e₁) (h₂ : asks e₂)
    (hs : e₁.session ≠ e₂.session) :
    e₂.before.nsec.pending e₁.session p = none ∧
      e₂.before.subscription.pending e₁.session p = none ∧
      ∀ e ∈ l₂, e.session = e₁.session → e.cmd.nsecWrite = none ∧ e.cmd.subscriptionKey = none := by
  obtain ⟨x, hx, hend⟩ := endsTx_between hd ht hlog h₁ h₂ hs
  have hlog' : log = (l₁ ++ e₁ :: m) ++ e₂ :: l₂ := by rw [hlog]; simp
  rw [hlog'] at ht hd
  have hmem : x ∈ own e₁.session (l₁ ++ e₁ :: m) := by
    rw [own_append, own_cons_self rfl]
    exact List.mem_append_right _ (List.mem_cons_of_mem _ hx)
  obtain ⟨hn, hsub, hnone⟩ := settled_of_endsTx hd ht.split_cons.1 (hq.nsec_pending _ p)
    (hq.subscription_pending _ p) ⟨x, hmem, hend⟩
  exact ⟨hn, hsub, fun e he hes => hnone e (List.mem_cons_of_mem _ he) hes⟩

variable (hf : ∀ s, own s log = [] ∨ Finished p (own s log)) (hr : ∀ s, Recordable (own s log))
include hf hr

omit hd in
/-- Where no call reached `_grant_and_record`, nothing has changed. -/
theorem rowsOf_undecided (h : ¬ ∃ l₁ e l₂ sub, DecidingRead p log l₁ e l₂ sub) :
    st.rowsOf p = st₀.rowsOf p := by
  refine rowsOf_kept ht fun l₁ e l₂ hlog ht₁ _ => ?_
  refine pending_of_no_write ht₁ hq fun x hx hw => h ?_
  have hx' : x ∈ own e.session log := by
    rw [hlog, own_append]
    exact List.mem_append_left _ hx
  rcases hf e.session with hnil | hfin
  · rw [hnil] at hx'
    cases hx'
  · obtain ⟨l₁, e, l₂, sub, hdec, -⟩ := deciding_of_write hfin (hr _) hx' hw
    exact ⟨l₁, e, l₂, sub, hdec⟩

/-- After the commit of the call with the last deciding read, no call changes
    the user's rows. -/
theorem rowsOf_last {l₁ l₂ k k' : List (LogEntry S)} {e ec : LogEntry S} {sub : FlashSubscription}
    (hdec : DecidingRead p log l₁ e l₂ sub)
    (hmax : ∀ l₁' e' l₂' sub', DecidingRead p log l₁' e' l₂' sub' → l₁'.length ≤ l₁.length)
    (hlog : log = k ++ ec :: k') (hs : ec.session = e.session) (hc : ec.cmd = .commit)
    (hpos : l₁.length < k.length) : st.rowsOf p = ec.after.rowsOf p := by
  have htk := ht
  rw [hlog] at htk
  obtain ⟨ht₁, he, ht₂⟩ := htk.split_cons
  have hec : Trace exec st₀ (k ++ [ec]) ec.after := by
    obtain ⟨ω, he⟩ := he
    exact ht₁.append (.cons ω he (.nil _))
  refine rowsOf_kept ht₂ fun m₁ e' m₂ hm ht' _ => ?_
  have hpre : Trace exec st₀ (k ++ [ec] ++ m₁) e'.before := hec.append ht'
  have hlog' : log = (k ++ [ec] ++ m₁) ++ e' :: m₂ := by rw [hlog, hm]; simp
  have hd' := hd
  rw [hlog'] at hd'
  -- it is enough that the committing session has ended a transaction before
  have hsettled : (∃ x ∈ own e'.session (k ++ [ec] ++ m₁), x.1.endsTx = true) →
      e'.before.nsec.pending e'.session p = none ∧
        e'.before.subscription.pending e'.session p = none := by
    intro hend
    obtain ⟨hn, hsub, -⟩ := settled_of_endsTx hd' hpre (hq.nsec_pending _ p)
      (hq.subscription_pending _ p) hend
    exact ⟨hn, hsub⟩
  by_cases hs' : e'.session = e.session
  · have hend : ec.cmd.endsTx = true := by rw [hc]; rfl
    refine hsettled ⟨⟨ec.cmd, ec.ans⟩, ?_, hend⟩
    rw [hs', ← hs]
    exact own_of_mem (by simp)
  · by_contra hp
    have hwrite : ∃ x ∈ own e'.session (k ++ [ec] ++ m₁),
        x.1.nsecWrite = some p ∨ x.1.subscriptionKey = some p := by
      by_contra hno
      exact hp (pending_of_no_write hpre hq fun x hx hw => hno ⟨x, hx, hw⟩)
    obtain ⟨x, hx, hw⟩ := hwrite
    have hx' : x ∈ own e'.session log := by
      rw [hlog', own_append]
      exact List.mem_append_left _ hx
    have hfin : Finished p (own e'.session log) := by
      refine (hf e'.session).resolve_left fun hnil => ?_
      rw [hnil] at hx'
      cases hx'
    obtain ⟨a₁, e₁, a₂, sub', hdec', hs₁⟩ := deciding_of_write hfin (hr _) hx' hw
    -- the other call asked before, so it has ended its transaction by now
    have hle := hmax _ _ _ _ hdec'
    have hsame := hdec'.log.symm.trans hdec.log
    rcases split_compare hsame with ⟨m, rfl, rfl⟩ | ⟨-, rfl, -⟩ | ⟨m, rfl, -⟩
    · have hlog₁ : log = a₁ ++ e₁ :: (m ++ e :: l₂) := hdec'.log
      obtain ⟨y, hy, hend⟩ := endsTx_between hd ht hlog₁ (asks_of_answer hdec'.answer)
        (asks_of_answer hdec.answer) (by rw [hs₁]; exact hs')
      refine hp (hsettled ⟨y, ?_, hend⟩)
      rw [hs₁] at hy
      -- the deciding read lies before the commit
      have hk : k ++ ec :: k' = (a₁ ++ e₁ :: m) ++ e :: l₂ := by rw [← hlog, hlog₁]; simp
      rcases split_compare hk with ⟨n, hn, -⟩ | ⟨hn, -, -⟩ | ⟨n, hn, -⟩
      · rw [hn] at hpos
        simp only [List.length_append, List.length_cons] at hpos
        omega
      · rw [hn] at hpos
        simp only [List.length_append, List.length_cons] at hpos
        omega
      · rw [hn]
        simp only [own_append, own_cons_self hs₁, List.mem_append, List.mem_cons]
        exact Or.inl (Or.inl (Or.inl (Or.inr (Or.inr hy))))
    · exact hs' hs₁.symm
    · simp only [List.length_append, List.length_cons] at hle
      omega

/-- The call with the last deciding read prevails. -/
theorem rowsOf_decided : Converged p log st := by
  intro l₁ e l₂ sub hdec hmax
  obtain ⟨blocked, hreached⟩ := hdec.reached
  have hown : own e.session log = own e.session l₁ ++ ⟨e.cmd, e.ans⟩ :: own e.session l₂ := by
    rw [hdec.log, own_append, own_cons_self rfl]
  have hreached' : (⟨.isBillingBlocked p, blocked⟩ : Σ c, Cmd.Ans c) ∈ own e.session log := by
    rw [hown]
    exact List.mem_append_right _ (List.mem_cons_of_mem _ hreached)
  have hfin : Finished p (own e.session log) := by
    refine (hf e.session).resolve_left fun hnil => ?_
    rw [hnil] at hreached'
    cases hreached'
  rcases finished_cases hfin (hr _) with hall |
    ⟨skip, t, existing, sub', plan, now, blocked', source, res, z, t₂, hdel, hres, ho, hlast, hplan,
      hnow, -⟩
  · rcases hall _ hreached' with h | h
    · cases h
    · cases h
  -- the answer the call decided from is the one of `e`
  have hlast' : LastAnswer (own e.session log) sub (own e.session l₂) := by
    obtain ⟨handle, hans⟩ := hdec.answer
    exact ⟨own e.session l₁, handle, by rw [hown, hans], hdec.last⟩
  obtain ⟨rfl, rfl⟩ := hlast.unique hlast'
  obtain ⟨k, ec, k', row, syncedAt, hlog, hs, hc, hk, hrow, hent, hafter⟩ :=
    commit_of_written hq ht hd.locked hdel hres ho
  have hasks := asks_of_answer hdec.answer
  obtain ⟨hheld, hopen, -⟩ := hd l₁ e l₂ hdec.log (Or.inl hasks)
  have hend : ec.cmd.endsTx = true := by rw [hc]; rfl
  have hsplit : l₁ ++ e :: l₂ = k ++ ec :: k' := hdec.log.symm.trans hlog
  rcases split_compare hsplit with ⟨m, rfl, rfl⟩ | ⟨-, rfl, -⟩ | ⟨m, rfl, -⟩
  · -- from the read to the commit the committed rows do not change
    have hlog' : log = (l₁ ++ e :: m) ++ ec :: k' := hlog
    have hl := hd.locked
    rw [hlog'] at hl
    have htk := ht
    rw [hlog'] at htk
    obtain ⟨ω, he⟩ := htk.split_cons.1.split_cons.2.1
    have hrows : ec.before.rowsOf p = e.before.rowsOf p := by
      refine rowsOf_of_holds hl.take (hq.nsec_pending · p) (hq.subscription_pending · p)
        htk.split_cons.1.split_cons.1 (.cons ω he htk.split_cons.1.split_cons.2.2) hheld fun x hx => ?_
      refine hk x ?_
      rw [own_append]
      exact List.mem_append_right _ hx
    simp only [Store.rowsOf, Prod.mk.injEq] at hrows
    have hfinal : st.rowsOf p = ec.after.rowsOf p :=
      rowsOf_last hq ht hd hf hr hdec hmax hlog hs hc (by simp)
    rw [hrows.1] at hrow
    rw [hrows.2] at hent hafter
    refine ⟨row, plan, now, syncedAt, hrow, hplan, hnow, ?_⟩
    rw [hfinal, hafter, hent]
  · exact absurd hend (asks_not_endsTx hasks)
  · -- not after the commit: the call has not ended a transaction when it asks
    refine absurd hend (hopen ⟨ec.cmd, ec.ans⟩ ?_)
    rw [← hs]
    exact own_of_mem (by simp)

end

/-- Two deliveries for one new user, one after the other; Flash reports `later` to the second. -/
def twoDeliveries (later : FlashSubscription) (n : ℕ) :
    Option (Config Cmd.Ans Exn EntitlementOutcome Bool (Store Bool)) :=
  (start (calls "alice" (fun _ => none) (fun _ => false) fun _ => false)
    (sampleStore (fun p => if p = "alice" then some .created else none) (fun _ => none) [])).run exec
    (List.replicate 2 (false, flashReports (sampleSubscription "sub_1" "active" (some "alice")) 10) ++
      List.replicate 1 (true, flashReports later 20) ++
      List.replicate 11 (false, flashReports (sampleSubscription "sub_1" "active" (some "alice")) 10) ++
      List.replicate n (true, flashReports later 20))

/-- What the subscription has become, with a price. -/
def expiredAt (price : ℤ) : FlashSubscription :=
  { sampleSubscription "sub_1" "expired" (some "alice") with pricing := some ⟨some price, none, none⟩ }

/-- Whether the session asks if somebody is blocked. -/
def asksBlocked : (Σ c, Cmd.Ans c) → Bool
  | ⟨.isBillingBlocked p, _⟩ => p = "alice"
  | _ => false

/-- The entry at a place of the log is a deciding read. -/
theorem decidingRead_of_getElem {cfg : Config Cmd.Ans Exn EntitlementOutcome Bool (Store Bool)} {n : ℕ}
    {handle : Handle} {sub : FlashSubscription}
    (hn : cfg.log[n]?.map (fun e => (found ⟨e.cmd, e.ans⟩, (own e.session (cfg.log.drop (n + 1))).all
      (fun x => !IsAnswer x), (own e.session (cfg.log.drop (n + 1))).any asksBlocked)) =
        some (some (handle, sub), true, true)) :
    ∃ e, DecidingRead "alice" cfg.log (cfg.log.take n) e (cfg.log.drop (n + 1)) sub := by
  obtain ⟨e, he, hsum⟩ := Option.map_eq_some_iff.1 hn
  simp only [Prod.mk.injEq, List.all_eq_true, List.any_eq_true, Bool.not_eq_true',
    decide_eq_false_iff_not] at hsum
  obtain ⟨hfound, hlast, ⟨c, a⟩, hx, hasks⟩ := hsum
  obtain ⟨hlt, rfl⟩ := List.getElem?_eq_some_iff.1 he
  refine ⟨_, (List.take_append_drop n cfg.log).symm.trans (by rw [List.drop_eq_getElem_cons hlt]),
    ⟨handle, found_eq_some.1 hfound⟩, hlast, ?_⟩
  cases c with
  | isBillingBlocked p =>
    obtain rfl := of_decide_eq_true hasks
    exact ⟨a, hx⟩
  | _ => cases hasks

end BrainstormServer
