/-
  The reconcile batch among other sessions (`reconcile_subscriptions`).

  The batch loads its candidates once and then calls `apply_entitlement` row by
  row in the same session, so every call reads the instance loaded at the start.
  Whatever the others do:

  * a call of the batch is made for a candidate, under the user's lock, and only
    while no rollback has expired the instances (`Batches`): after a rollback
    the next command reads an instance, which raises;
  * so a decision that leaves the policy alone writes back the grant committed
    when the candidates were loaded.  That is the grant committed when the call
    took the lock exactly if the two are the same (`carried_grant_current_iff`);
  * a grant taken back in between is resurrected (`carried_grant_resurrected`).
-/
import BrainstormServer.Billing.Commands
import BrainstormServer.Billing.History

namespace BrainstormServer

open Conc Prog

/-! ## What the batch does, by its own history -/

/-- After a rollback the next command found an instance loaded. -/
def RollbackRead (h : Hist) : Prop :=
  ∀ h₁ h₂, h = h₁ ++ ⟨.rollback, ()⟩ :: h₂ → ∃ q h₃, h₂ = ⟨.readInstance q, true⟩ :: h₃

theorem RollbackRead.append {h t : Hist} (hr : RollbackRead h) (ht : ∀ x ∈ t, x.1 ≠ .rollback) :
    RollbackRead (h ++ t) := by
  intro h₁ h₂ he
  rcases split_append he with ⟨r, hh, rfl⟩ | ⟨r, -, rfl⟩
  · obtain ⟨q, h₃, rfl⟩ := hr h₁ r hh
    exact ⟨q, h₃ ++ t, rfl⟩
  · exact absurd rfl (ht ⟨.rollback, ()⟩ (by simp))

/-- A rollback after which an instance was found. -/
theorem RollbackRead.rollback {h : Hist} (hr : RollbackRead h) (q : Pubkey) :
    RollbackRead (h ++ [⟨.rollback, ()⟩, ⟨.readInstance q, true⟩]) := by
  intro h₁ h₂ he
  rcases split_append he with ⟨r, hh, rfl⟩ | ⟨r, -, ht⟩
  · obtain ⟨q', h₃, rfl⟩ := hr h₁ r hh
    exact ⟨q', _, rfl⟩
  · cases r with
    | nil =>
      simp only [List.nil_append, List.cons.injEq] at ht
      exact ⟨q, [], ht.2.symm⟩
    | cons x r =>
      cases r with
      | nil => simp at ht
      | cons y r => simp at ht

/-- The batch has selected `p` as a candidate. -/
def Candidate (p : Pubkey) (h : Hist) : Prop :=
  ∃ now staleAfter limit rule rows,
    (⟨.selectReconcileCandidates now staleAfter limit rule, rows⟩ : Σ c, Cmd.Ans c) ∈ h ∧
      p ∈ rows.map Prod.fst

theorem Candidate.append {p : Pubkey} {h : Hist} (hc : Candidate p h) (t : Hist) :
    Candidate p (h ++ t) := by
  obtain ⟨now, staleAfter, limit, rule, rows, hsel, hp⟩ := hc
  exact ⟨now, staleAfter, limit, rule, rows, List.mem_append_left _ hsel, hp⟩

/-- A call for `p` has resolved `res` from `sub`: since it locked the user, in one
    transaction, it has made the reads `t` that `res` rests on. -/
def Resolves (p : Pubkey) (sub : FlashSubscription) (res : Resolution) (t : Hist) : Prop :=
  (∀ x ∈ t, ¬ x.1.endsTx = true) ∧
    ∃ existing plan now blocked source,
      (⟨.getUserSubscription p, existing⟩ : Σ c, Cmd.Ans c) ∈ t ∧
      (⟨.getBillingPlan sub.serviceId sub.planId, some plan⟩ : Σ c, Cmd.Ans c) ∈ t ∧
      (⟨.utcNow, now⟩ : Σ c, Cmd.Ans c) ∈ t ∧
      (⟨.isBillingBlocked p, blocked⟩ : Σ c, Cmd.Ans c) ∈ t ∧
      (⟨.getSchedulingSource p, source⟩ : Σ c, Cmd.Ans c) ∈ t ∧
      res = resolveEntitlement (sub.decide now) blocked (isAdminHeld source)
        plan.2.schedulingId (existing.bind (·.grantedSchedulingId))

/-- What a command of the batch may be, given its history. -/
structure Batches (h : Hist) (c : Cmd) : Prop where
  writes : ∀ p, c.subscriptionKey = some p →
    (∃ sub i granted, c = .upsertUserSubscription p sub i granted) ∨
      ∃ reason, c = .recordSyncFailure p reason
  keeps : c ≠ .dropInstances
  selects : ∀ {now staleAfter limit rule}, c = .selectReconcileCandidates now staleAfter limit rule →
    ∀ x ∈ h, x.1 = .utcNow
  records : ∀ {p sub i granted}, c = .upsertUserSubscription p sub i granted → RollbackRead h ∧
    ∃ h₀ skip t res, h = h₀ ++ ⟨.lockUserForUpdate p skip, true⟩ :: t ∧ Candidate p h₀ ∧
      Resolves p sub res t ∧ granted = res.grantedSchedulingId

/-- Nothing is asked of the commands that write no subscription row. -/
theorem batches_of_idle {h : Hist} {c : Cmd} (hs : c.subscriptionKey = none)
    (hk : c ≠ .dropInstances)
    (hc : ∀ now staleAfter limit rule, c ≠ .selectReconcileCandidates now staleAfter limit rule) :
    Batches h c where
  writes p hp := by
    rw [hs] at hp
    cases hp
  keeps := hk
  selects hq := absurd hq (hc _ _ _ _)
  records hq := by
    rw [hq] at hs
    cases hs

theorem batches_read {h : Hist} {c : Cmd} (hc : c.isRead = true) : Batches h c := by
  refine batches_of_idle (isRead_writes hc).2 ?_ ?_
  · rintro rfl
    cases hc
  · rintro now staleAfter limit rule rfl
    cases hc

theorem batches_fail {h : Hist} {p : Pubkey} {reason : String} :
    Batches h (.recordSyncFailure p reason) where
  writes q hq := by
    cases hq
    exact Or.inr ⟨reason, rfl⟩
  keeps hq := nomatch hq
  selects hq := nomatch hq
  records hq := nomatch hq

/-- The batch's specification admits a call for a candidate. -/
theorem admits_batches {p : Pubkey} {skip : Bool} {h₀ : Hist} (hc : Candidate p h₀)
    (hr : RollbackRead (h₀ ++ [⟨.lockUserForUpdate p skip, true⟩])) :
    Admits Batches p (h₀ ++ [⟨.lockUserForUpdate p skip, true⟩]) where
  read _ hc := batches_read hc
  assign _ _ _ := batches_of_idle rfl (fun hq => nomatch hq) (fun _ _ _ _ hq => nomatch hq)
  record := by
    intro t existing sub plan now blocked source hd res hres
    have hassign : ∀ x ∈ assignment p res, x.1.endsTx = false := by
      intro x hx
      rcases assignment_cases p res with ⟨src, h, -⟩ | ⟨h, -⟩
      · rw [h, List.mem_singleton] at hx
        rw [hx]
        rfl
      · rw [h] at hx
        cases hx
    have hopen : ∀ x ∈ t ++ assignment p res, ¬ x.1.endsTx = true := by
      intro x hx
      rcases List.mem_append.1 hx with hx | hx
      · exact isRead_endsTx (hd.reads x hx)
      · simp [hassign x hx]
    refine ⟨?_, (fun hq => nomatch hq), (fun hq => nomatch hq), ?_⟩
    · rintro q ⟨⟩
      exact Or.inl ⟨_, _, _, rfl⟩
    · rintro q sub' i granted ⟨⟩
      refine ⟨hr.append fun x hx hrb => hopen x hx (by rw [hrb]; rfl), h₀, skip,
        t ++ assignment p res, res, by simp, hc, ⟨hopen, ?_⟩, rfl⟩
      obtain ⟨t₂, ⟨t₁, handle, rfl, -⟩, hplan, hnow, -⟩ := hd.since
      exact ⟨existing, plan, now, blocked, source, List.mem_append_left _ hd.existing,
        by simp [hplan], by simp [hnow], List.mem_append_left _ hd.blocked,
        List.mem_append_left _ hd.source, hres⟩
  commit _ := batches_of_idle rfl (fun hq => nomatch hq) (fun _ _ _ _ hq => nomatch hq)

/-- The batch goes on from the history `h` to `h'`. -/
def GoesOn (h h' : Hist) : Prop := RollbackRead h' ∧ ∃ t, h' = h ++ t

theorem GoesOn.refl {h : Hist} (hr : RollbackRead h) : GoesOn h h := ⟨hr, [], by simp⟩

theorem GoesOn.trans {h h' h'' : Hist} (h₁ : GoesOn h h') (h₂ : GoesOn h' h'') : GoesOn h h'' := by
  obtain ⟨-, t, rfl⟩ := h₁
  obtain ⟨hr, t', rfl⟩ := h₂
  exact ⟨hr, t ++ t', by simp⟩

theorem RollbackRead.goesOn {h : Hist} (hr : RollbackRead h) {c : Cmd} (a : c.Ans)
    (hc : c ≠ .rollback) : GoesOn h (h ++ [⟨c, a⟩]) := by
  refine ⟨hr.append fun x hx => ?_, _, rfl⟩
  rw [List.mem_singleton.1 hx]
  exact hc

theorem Called.goesOn {p : Pubkey} {u h : Hist} (hr : RollbackRead u) (hc : Called p u h) :
    GoesOn u h := by
  have hread : ∀ {t}, Reads t → ∀ x ∈ t, x.1 ≠ .rollback := by
    intro t ht x hx hrb
    have hisRead := ht x hx
    rw [hrb] at hisRead
    cases hisRead
  rcases hc with ⟨t, existing, sub, plan, now, blocked, source, hd, res, -, rfl⟩ |
    ⟨t, existing, sub, plan, now, blocked, source, res, hd, -, rfl⟩ | ⟨t, ht, rfl⟩
  · refine ⟨hr.append fun x hx => ?_, _, rfl⟩
    rcases List.mem_append.1 hx with hx | hx
    · exact hread hd.reads x hx
    · rintro hrb
      rcases assignment_cases p res with ⟨src, h, -⟩ | ⟨h, -⟩
      · rw [h] at hx
        simp only [List.cons_append, List.nil_append, List.mem_cons, List.not_mem_nil,
          or_false] at hx
        rcases hx with rfl | rfl | rfl <;> cases hrb
      · rw [h] at hx
        simp only [List.nil_append, List.mem_cons, List.not_mem_nil, or_false] at hx
        rcases hx with rfl | rfl <;> cases hrb
  · refine ⟨hr.append fun x hx => ?_, _, rfl⟩
    rcases List.mem_append.1 hx with hx | hx
    · exact hread hd.reads x hx
    · rintro hrb
      rcases assignment_cases p res with ⟨src, h, -⟩ | ⟨h, -⟩
      · rw [h, List.mem_singleton] at hx
        rw [hx] at hrb
        cases hrb
      · rw [h] at hx
        cases hx
  · exact ⟨hr.append (hread ht.reads), t, rfl⟩

section
variable {p : Pubkey} {h : Hist}

theorem applyEntitlement_batches (hr : RollbackRead h) (hc : Candidate p h) :
    (applyEntitlement (some p) none false false).Obeys Batches (fun _ h' => GoesOn h h') h := by
  unfold applyEntitlement
  by_cases hp : p = ""
  · rw [hp]
    exact .refl hr
  simp only [given, Option.filter_some, hp, ne_eq, not_false_eq_true, decide_true, if_true, await,
    bind_eq, call_bind, pure_eq]
  refine ⟨batches_read rfl, fun found => ?_⟩
  have hfound : GoesOn h (h ++ [⟨.brainstormNsecExists p, found⟩]) :=
    hr.goesOn _ (by simp)
  cases found with
  | false => exact hfound
  | true =>
    refine ⟨batches_read rfl, fun locked => ?_⟩
    have hlocked := hfound.trans (hfound.1.goesOn (c := .lockUserForUpdate p false) locked
      (by simp))
    cases locked with
    | false => exact hlocked
    | true =>
      refine ((admits_batches (hc.append _) hlocked.1).reconcileLocked_obeys none false).mono ?_
      exact fun _ _ hcall => hlocked.trans (hcall.goesOn hlocked.1)

/-- Recording a failed read, once the instance has been found. -/
theorem noteFailure_batches (hr : RollbackRead (h ++ [⟨.readInstance p, true⟩])) (reason : String) :
    (noteFailure p reason).Obeys Batches
      (fun r h' => r = .error .missingGreenlet ∨ GoesOn (h ++ [⟨.readInstance p, true⟩]) h') h := by
  unfold noteFailure instancePubkey
  simp only [await, bind_eq, call_bind, pure_eq]
  refine ⟨batches_of_idle rfl (fun hq => nomatch hq) (fun _ _ _ _ hq => nomatch hq), fun found => ?_⟩
  cases found with
  | false => exact Or.inl rfl
  | true =>
    have hfail := hr.goesOn (c := .recordSyncFailure p reason) () (fun hq => nomatch hq)
    refine ⟨batches_fail, fun _ => ⟨?_, fun _ => Or.inr ?_⟩⟩
    · exact batches_of_idle rfl (fun hq => nomatch hq) (fun _ _ _ _ hq => nomatch hq)
    · exact hfail.trans (hfail.1.goesOn (c := .commit) () (fun hq => nomatch hq))

/-- A rollback, and the failed read recorded if the instance is still there. -/
theorem rollback_batches (hr : RollbackRead h) (reason : String) (turn : Turn) :
    (Prog.op .rollback fun _ => (noteFailure p reason).bind fun _ => (.ret turn : Billing Turn)).Obeys
      Batches (fun r h' => r = .error .missingGreenlet ∨ GoesOn h h') h := by
  refine ⟨batches_of_idle rfl (fun hq => nomatch hq) (fun _ _ _ _ hq => nomatch hq), fun _ => ?_⟩
  have hrb := hr.rollback p
  refine obeys_bind.2 (Obeys.mono ?_ (noteFailure_batches (p := p) (by simpa using hrb) reason))
  rintro (e | a) h' (he | ⟨hr', t, ht⟩)
  · exact Or.inl (by cases he; rfl)
  · exact Or.inr ⟨hr', _, by rw [ht, List.append_assoc, List.append_assoc]⟩
  · cases he
  · exact Or.inr ⟨hr', _, by rw [ht, List.append_assoc, List.append_assoc]⟩

/-- One turn of the batch. -/
theorem reconcileRow_batches (hr : RollbackRead h) (hc : Candidate p h) :
    (reconcileRow p).Obeys Batches (fun r h' => r = .error .missingGreenlet ∨ GoesOn h h') h := by
  have hbody : (do
      let pubkey ← instancePubkey p
      let outcome ← applyEntitlement (some pubkey) none false false
      if outcome.reason ∈ unsettledReasons then
        noteFailure p outcome.reason.value
        pure Turn.failed
      else pure Turn.reconciled : Billing Turn).Obeys Batches
      (fun r h' => r = .error .missingGreenlet ∨ GoesOn h h') h := by
    unfold instancePubkey
    simp only [await, bind_eq, call_bind, pure_eq]
    refine ⟨batches_of_idle rfl (fun hq => nomatch hq) (fun _ _ _ _ hq => nomatch hq), fun found => ?_⟩
    cases found with
    | false => exact Or.inl rfl
    | true =>
      have hfound : GoesOn h (h ++ [⟨.readInstance p, true⟩]) := hr.goesOn _ (fun hq => nomatch hq)
      show ((applyEntitlement (some p) none false false).bind _).Obeys _ _ _
      refine obeys_bind.2 (Obeys.mono ?_ (applyEntitlement_batches hfound.1 (hc.append _)))
      rintro (e | outcome) h₁ hgo
      · exact Or.inr (hfound.trans hgo)
      · have hgo' := hfound.trans hgo
        show Prog.Obeys _ (if _ then _ else _) _ _
        split_ifs
        · have hread : GoesOn h₁ (h₁ ++ [⟨.readInstance p, true⟩]) :=
            hgo.1.goesOn _ (fun hq => nomatch hq)
          refine obeys_bind.2 (Obeys.mono ?_ (noteFailure_batches hread.1 _))
          rintro (e | a) h' (he | hgo₂)
          · exact Or.inl (by cases he; rfl)
          · exact Or.inr (hgo'.trans (hread.trans hgo₂))
          · cases he
          · exact Or.inr (hgo'.trans (hread.trans hgo₂))
        · exact Or.inr hgo'
  unfold reconcileRow
  refine obeys_tryCatch.2 (Obeys.mono ?_ hbody)
  rintro (e | turn) h' hpost
  · cases e with
    | flashUnavailable m =>
      obtain ⟨hr', t, rfl⟩ := hpost.resolve_left (fun he => nomatch he)
      refine (rollback_batches hr' m .failed).mono ?_
      exact fun r h'' hq => hq.imp_right fun hgo => GoesOn.trans ⟨hr', t, rfl⟩ hgo
    | flashCredentialError m =>
      obtain ⟨hr', t, rfl⟩ := hpost.resolve_left (fun he => nomatch he)
      refine (rollback_batches hr' "credentials refused" .abandon).mono ?_
      exact fun r h'' hq => hq.imp_right fun hgo => GoesOn.trans ⟨hr', t, rfl⟩ hgo
    | httpException | integrityError | unnamed =>
      exact Or.inr (hpost.resolve_left (fun he => nomatch he))
    | missingGreenlet => exact Or.inl rfl
  · exact Or.inr (hpost.resolve_left (fun he => nomatch he))

/-- The loop: the rows still to come are candidates. -/
theorem reconcileAll_batches : ∀ (rows : List Pubkey) (result : ReconcileResult) {h : Hist},
    RollbackRead h → (∀ p ∈ rows, Candidate p h) →
    (reconcileAll rows result).Obeys Batches (fun _ _ => True) h := by
  intro rows
  induction rows with
  | nil =>
    intro result h _ _
    exact trivial
  | cons p rows ih =>
    intro result h hr hc
    unfold reconcileAll
    refine obeys_bind.2 (Obeys.mono ?_ (reconcileRow_batches hr (hc p List.mem_cons_self)))
    rintro (e | turn) h' hpost
    · exact trivial
    · obtain ⟨hr', t, rfl⟩ := hpost.resolve_left (fun he => nomatch he)
      have hc' : ∀ q ∈ rows, Candidate q (h ++ t) :=
        fun q hq => (hc q (List.mem_cons_of_mem _ hq)).append t
      cases turn with
      | reconciled => exact ih _ hr' hc'
      | failed => exact ih _ hr' hc'
      | abandon => exact trivial

/-- The batch as it runs in a session of its own. -/
def reconcileBatch (limit : ℕ) (staleAfter abandonPendingAfter : ℤ) (now : Option DateTime) :
    Billing Unit :=
  dbSession (discard (reconcileSubscriptions limit staleAfter abandonPendingAfter now))

theorem reconcileSubscriptions_batches (limit : ℕ) (staleAfter abandonPendingAfter : ℤ)
    (now : Option DateTime) :
    (reconcileSubscriptions limit staleAfter abandonPendingAfter now).Obeys Batches
      (fun _ _ => True) [] := by
  have hselect : ∀ {h at_ rule}, (∀ x ∈ h, x.1 = .utcNow) →
      Batches h (.selectReconcileCandidates at_ staleAfter limit rule) := by
    intro h at_ rule hx
    exact ⟨(fun q hq => nomatch hq), (fun hq => nomatch hq), fun _ => hx, (fun hq => nomatch hq)⟩
  -- the loop, from a history without a rollback that ends with the select
  have hloop : ∀ {h at_ rule} (rows : List (Pubkey × UserSubscription)),
      (∀ x ∈ h, x.1 = .utcNow) →
      (reconcileAll (rows.map (·.1)) ⟨0, 0⟩).Obeys Batches (fun _ _ => True)
        (h ++ [⟨.selectReconcileCandidates at_ staleAfter limit rule, rows⟩]) := by
    intro h at_ rule rows hx
    have hnil : RollbackRead [] := fun h₁ h₂ he => by simp at he
    have hr : RollbackRead ([] ++ (h ++ [⟨.selectReconcileCandidates at_ staleAfter limit rule, rows⟩])) := by
      refine hnil.append fun x hmem => ?_
      rcases List.mem_append.1 hmem with hmem | hmem
      · rw [hx x hmem]
        exact fun hq => nomatch hq
      · rw [List.mem_singleton.1 hmem]
        exact fun hq => nomatch hq
    refine reconcileAll_batches _ _ hr fun p hp => ?_
    exact ⟨at_, staleAfter, limit, rule, rows, by simp, hp⟩
  unfold reconcileSubscriptions resolveNow
  cases now with
  | some t =>
    have hx : ∀ x ∈ ([] : Hist), x.1 = .utcNow := fun x hx => nomatch hx
    exact ⟨hselect hx, fun rows => hloop rows hx⟩
  | none =>
    refine ⟨batches_read rfl, fun t => ?_⟩
    have hx : ∀ x ∈ [(⟨.utcNow, t⟩ : Σ c, Cmd.Ans c)], x.1 = .utcNow := by simp
    exact ⟨hselect hx, fun rows => hloop rows hx⟩

theorem reconcileBatch_batches (limit : ℕ) (staleAfter abandonPendingAfter : ℤ)
    (now : Option DateTime) :
    (reconcileBatch limit staleAfter abandonPendingAfter now).Obeys Batches (fun _ _ => True) [] := by
  have hidle : ∀ h c, c.endsTx = true → Batches h c := by
    intro h c hc
    rcases endsTx_cases hc with rfl | rfl
    · exact batches_of_idle rfl (fun hq => nomatch hq) (fun _ _ _ _ hq => nomatch hq)
    · exact batches_of_idle rfl (fun hq => nomatch hq) (fun _ _ _ _ hq => nomatch hq)
  refine obeys_dbSession hidle (Obeys.mono (fun _ _ _ _ _ => trivial) (obeys_discard ?_))
  exact reconcileSubscriptions_batches limit staleAfter abandonPendingAfter now

end

/-! ## The batch among other sessions -/

section
variable {S : Type} [DecidableEq S] {v : S} {p : Pubkey}

/-- The grant on a row. -/
def grantOf (r : Option UserSubscription) : Option SchedulingId := r.bind (·.grantedSchedulingId)

/-- No session is about to delete the row of `p`. -/
def Undeleted (p : Pubkey) (st : Store S) : Prop := ∀ s, st.subscription.pending s p ≠ some none

omit [DecidableEq S] in
theorem Undeleted.view {st : Store S} (h : Undeleted p st) (hc : st.subscription.committed p ≠ none)
    (s : S) : st.subscription.view s p ≠ none := by
  unfold TxTable.view
  cases hp : st.subscription.pending s p with
  | none => exact hc
  | some r =>
    rintro rfl
    exact h s hp

theorem Undeleted.write {st st' : Store S} {s : S} (h : Undeleted p st) {q : Pubkey}
    {row : UserSubscription} (hsub : st'.subscription = st.subscription.write s q (some row)) :
    Undeleted p st' := by
  intro s' hs'
  rw [hsub] at hs'
  by_cases hs : s' = s
  · subst hs
    by_cases hq : p = q
    · subst hq
      simp [TxTable.write] at hs'
    · simp only [TxTable.write, Function.update_self, Function.update_of_ne hq] at hs'
      exact h s' hs'
  · simp only [TxTable.write, Function.update_of_ne hs] at hs'
    exact h s' hs'

/-- No command deletes a row. -/
theorem exec_undeleted {s : S} {c : Cmd} {st st' : Store S} {ω : Outside} {a : c.Ans}
    (he : exec s c st ω = some (a, st')) (h : Undeleted p st) : Undeleted p st' := by
  have hend : ∀ {t : TxTable S Pubkey UserSubscription},
      t.pending = Function.update st.subscription.pending s (fun _ => none) →
        ∀ s', t.pending s' p ≠ some none := by
    intro t ht s' hs'
    rw [ht] at hs'
    by_cases hs : s' = s
    · simp [hs] at hs'
    · rw [Function.update_of_ne hs] at hs'
      exact h s' hs'
  cases exec_subscription he with
  | same hsub hkeys =>
    intro s'
    rw [hsub]
    exact h s'
  | record q sub plan granted hc hsub hkeys => exact h.write (TxTable.update_eq_some.1 hsub).2
  | update q f hc hq hsub hkeys =>
    rcases TxTable.modify_cases hsub with ⟨-, hsame⟩ | ⟨row, -, -, hwrite⟩
    · intro s'
      rw [hsame]
      exact h s'
    · exact h.write hwrite
  | commit hc hst =>
    rw [hst]
    exact hend rfl
  | rollback hc hst =>
    rw [hst]
    exact hend rfl

/-- A committed row stays. -/
theorem exec_committed_some {s : S} {c : Cmd} {st st' : Store S} {ω : Outside} {a : c.Ans}
    (he : exec s c st ω = some (a, st')) (h : Undeleted p st)
    (hc : st.subscription.committed p ≠ none) : st'.subscription.committed p ≠ none := by
  rcases exec_cases he with ⟨-, hx⟩ | ⟨-, rfl⟩ | ⟨-, rfl⟩
  · rw [hx.subscription.committed]
    exact hc
  · exact h.view hc s
  · exact hc

/-- The instance of `p` that the batch has loaded keeps its grant. -/
theorem exec_loaded_grant {c : Cmd} {st st' : Store S} {ω : Outside} {a : c.Ans} {h : Hist}
    (he : exec v c st ω = some (a, st')) (hb : Batches h c) (hr : c ≠ .rollback)
    {row : UserSubscription} (hl : st.loaded v p = some row) :
    ∃ row', st'.loaded v p = some row' ∧ row'.grantedSchedulingId = row.grantedSchedulingId := by
  rcases exec_loaded he with hsame | ⟨ps, rfl⟩ | ⟨q, f, hq, -, hm⟩ | rfl | rfl
  · exact ⟨row, by rw [hsame, hl], rfl⟩
  · exact ⟨row, by simp [Store.remember, hl], rfl⟩
  · rcases hb.writes q hq with ⟨sub, i, granted, rfl⟩ | ⟨reason, rfl⟩
    · obtain ⟨-, rfl⟩ := exec_upsertUserSubscription he
      exact ⟨row, hl, rfl⟩
    · -- a failed read is noted on the instance; that does not touch the grant
      simp only [exec, Option.map_eq_some_iff, Store.modifySubscription] at he
      obtain ⟨_, ⟨t, -, rfl⟩, he⟩ := he
      cases he
      by_cases hpq : p = q
      · subst hpq
        exact ⟨noteSyncFailure reason ω.now row, by simp [hl], rfl⟩
      · exact ⟨row, by simp [Function.update_of_ne hpq, hl], rfl⟩
  · exact absurd rfl hb.keeps
  · exact absurd rfl hr

/-- The rows the batch selects are loaded as it sees them. -/
theorem exec_selectReconcileCandidates {now : DateTime} {staleAfter : ℤ} {limit : ℕ}
    {rule : AbandonRule} {st st' : Store S} {ω : Outside} {rows : List (Pubkey × UserSubscription)}
    (h : exec v (.selectReconcileCandidates now staleAfter limit rule) st ω = some (rows, st'))
    (hl : st.loaded v p = none) (hp : p ∈ rows.map Prod.fst) :
    ∃ row, st.subscription.view v p = some row ∧ st'.loaded v p = some row ∧
      st'.subscription = st.subscription := by
  simp only [exec, Option.some.injEq, Prod.mk.injEq] at h
  obtain ⟨rfl, rfl⟩ := h
  obtain ⟨x, hx, rfl⟩ := List.mem_map.1 hp
  obtain ⟨⟨q, row⟩, hrow, rfl⟩ := List.mem_map.1 hx
  have hmem := List.mem_filter.1 ((List.mem_insertionSort _).1 (List.mem_of_mem_take hrow))
  have hview := Store.mem_subscriptions hmem.1
  refine ⟨row, hview, ?_, rfl⟩
  have hl' : st.loaded v q = none := hl
  show (Store.remember st v _).loaded v q = some row
  simp only [Store.remember, Function.update_self, hl', Option.none_or, hview]
  rw [if_pos (List.mem_map.2 ⟨(q, row), hrow, rfl⟩)]

/-- No rollback: after it no instance is loaded, so none was found. -/
theorem RollbackRead.no_rollback {st st' : Store S} {l : List (LogEntry S)}
    (hr : RollbackRead (own v l)) (ht : Trace exec st l st') :
    ∀ x ∈ own v l, x.1 ≠ .rollback := by
  rintro ⟨c, a⟩ hx hc
  obtain rfl : c = .rollback := hc
  obtain ⟨h₁, h₂, ho⟩ := List.append_of_mem hx
  obtain ⟨q, h₃, rfl⟩ := hr h₁ h₂ ho
  obtain ⟨l₁, e₁, l₂, rfl, hs₁, hc₁, -, ho₂⟩ := own_split ho
  obtain ⟨l₃, e₂, l₄, rfl, hs₂, hc₂, ho₃, -⟩ := own_split (h := []) ho₂
  obtain ⟨-, he₁, ht₂⟩ := ht.split_cons
  obtain ⟨ht₃, he₂, -⟩ := ht₂.split_cons
  obtain ⟨ω₁, hω₁⟩ := Entry.Executed.as he₁ hs₁ hc₁
  obtain ⟨ω₂, hω₂⟩ := Entry.Executed.as he₂ hs₂ hc₂
  have hnone : e₂.before.loaded v q = none := by
    refine ht₃.inv (I := fun st => st.loaded v q = none) ?_ ?_
    · intro e he ω hω hI
      have hs : e.session ≠ v := by
        rintro rfl
        have hmem := own_of_mem he
        rw [ho₃] at hmem
        cases hmem
      rw [(exec_other ⟨ω, hω⟩ hs).2.2]
      exact hI
    · simp only [exec, Option.some.injEq, Prod.mk.injEq] at hω₁
      rw [← hω₁.2]
      simp [Store.rollback]
  simp only [exec, Option.some.injEq, Prod.mk.injEq, hnone] at hω₂
  cases hω₂.1

/-- A decision that leaves the policy alone carries the recorded grant forward. -/
theorem carried_of_reason {decision : EntitlementDecision} {blocked adminHeld : Bool}
    {planId : SchedulingId} {existing : Option SchedulingId}
    (h : (resolveEntitlement decision blocked adminHeld planId existing).reason ∈
      [EntitlementReason.held, .blocked, .adminOverride]) :
    (resolveEntitlement decision blocked adminHeld planId existing).grantedSchedulingId =
      existing := by
  rcases resolveEntitlement_cases decision blocked adminHeld planId existing with
    ⟨-, -, hres⟩ | ⟨-, -, hres⟩ | ⟨reason, -, hres⟩
  · rw [hres] at h
    simp at h
  · rw [hres] at h
    simp at h
  · rw [hres]

/-- What the batch has of a candidate: its row is there, and the instance loaded
    for it carries the grant `g`. -/
structure Carries (v : S) (p : Pubkey) (g : Option SchedulingId) (st : Store S) : Prop where
  undeleted : Undeleted p st
  committed : st.subscription.committed p ≠ none
  loaded : ∃ row, st.loaded v p = some row ∧ row.grantedSchedulingId = g

section
variable {st st' : Store S} {log : List (LogEntry S)} (hq : st.Quiet) (ht : Trace exec st log st')
  (hspec : ∀ l (e : LogEntry S) l', log = l ++ e :: l' → e.session = v → Batches (own v l) e.cmd)
include hspec

/-- From the select on, while no rollback expires the instances. -/
theorem Carries.trace {l m l' : List (LogEntry S)} {st₁ st₂ : Store S} {g : Option SchedulingId}
    (hlog : log = l ++ (m ++ l')) (htm : Trace exec st₁ m st₂) (h : Carries v p g st₁)
    (hr : ∀ x ∈ own v m, x.1 ≠ .rollback) : Carries v p g st₂ := by
  refine Trace.inv_split (Carries v p g) m htm ?_ h
  rintro m₁ e m₂ hm - ⟨ω, he⟩ hI
  refine ⟨exec_undeleted he hI.undeleted, exec_committed_some he hI.undeleted hI.committed, ?_⟩
  obtain ⟨row, hrow, hg⟩ := hI.loaded
  by_cases hs : e.session = v
  · have hb := hspec (l ++ m₁) e (m₂ ++ l') (by rw [hlog, hm]; simp) hs
    have hne : e.cmd ≠ .rollback := by
      refine hr ⟨e.cmd, e.ans⟩ ?_
      rw [← hs]
      exact own_of_mem (by rw [hm]; simp)
    rw [hs] at he
    obtain ⟨row', hrow', hg'⟩ := exec_loaded_grant he hb hne hrow
    exact ⟨row', hrow', by rw [hg', hg]⟩
  · rw [(exec_other ⟨ω, he⟩ hs).2.2]
    exact ⟨row, hrow, hg⟩

include hq ht

/-- Right after the select. -/
theorem carries_of_select {l₁ l₂ : List (LogEntry S)} {es : LogEntry S} {now : DateTime}
    {staleAfter : ℤ} {limit : ℕ} {rule : AbandonRule} {rows : List (Pubkey × UserSubscription)}
    (hlog : log = l₁ ++ es :: l₂) (hs : es.session = v)
    (hc : (⟨es.cmd, es.ans⟩ : Σ c, Cmd.Ans c) =
      ⟨.selectReconcileCandidates now staleAfter limit rule, rows⟩) (hp : p ∈ rows.map Prod.fst) :
    Carries v p (grantOf (es.before.subscription.committed p)) es.after := by
  rw [hlog] at ht
  obtain ⟨ht₁, he, -⟩ := ht.split_cons
  obtain ⟨ω, hω⟩ := Entry.Executed.as he hs hc
  obtain ⟨hloaded, hpend⟩ := untouched_of_utcNow (p := p) ht₁ (by rw [hq.loaded])
    (hq.subscription_pending v p) ((hspec l₁ es l₂ hlog hs).selects (congrArg Sigma.fst hc))
  obtain ⟨row, hview, hl, hsame⟩ := exec_selectReconcileCandidates hω hloaded hp
  rw [TxTable.view_eq_committed hpend] at hview
  have hund : Undeleted p es.before := by
    refine ht₁.inv (I := Undeleted p) (fun e _ ω hω hI => exec_undeleted hω hI) fun s hs => ?_
    rw [hq.subscription_pending s p] at hs
    cases hs
  refine ⟨exec_undeleted hω hund, ?_, row, hl, ?_⟩
  · rw [hsame, hview]
    simp
  · rw [hview]
    rfl

/-- What a call of the batch reads is the instance loaded at the select. -/
theorem grant_of_call {l₁ l₂ l₃ : List (LogEntry S)} {es er : LogEntry S} {now : DateTime}
    {staleAfter : ℤ} {limit : ℕ} {rule : AbandonRule} {rows : List (Pubkey × UserSubscription)}
    {existing : Option UserSubscription} (hlog : log = l₁ ++ es :: (l₂ ++ er :: l₃))
    (hs : es.session = v) (hc : (⟨es.cmd, es.ans⟩ : Σ c, Cmd.Ans c) =
      ⟨.selectReconcileCandidates now staleAfter limit rule, rows⟩) (hp : p ∈ rows.map Prod.fst)
    (hsr : er.session = v)
    (hcr : (⟨er.cmd, er.ans⟩ : Σ c, Cmd.Ans c) = ⟨.getUserSubscription p, existing⟩)
    (hr : ∀ x ∈ own v l₂, x.1 ≠ .rollback) :
    grantOf existing = grantOf (es.before.subscription.committed p) := by
  have hstart := carries_of_select hq ht hspec hlog hs hc hp
  rw [hlog] at ht
  obtain ⟨htm, her, -⟩ := ht.split_cons.2.2.split_cons
  have hlog' : log = (l₁ ++ [es]) ++ (l₂ ++ er :: l₃) := by rw [hlog]; simp
  have hcar := hstart.trace hspec hlog' htm hr
  obtain ⟨row, hrow, hg⟩ := hcar.loaded
  obtain ⟨seen, hseen⟩ := Option.ne_none_iff_exists'.1 (hcar.undeleted.view hcar.committed v)
  obtain ⟨ω, hω⟩ := Entry.Executed.as her hsr hcr
  simp only [exec, hseen, Store.entity, hrow, Option.getD_some, Option.some.injEq,
    Prod.mk.injEq] at hω
  rw [← hω.1, ← hg]
  rfl

end

/-- Every command of the batch meets the batch's specification. -/
theorem batch_spec (prog : S → Billing Unit) (v : S) {limit : ℕ}
    {staleAfter abandonPendingAfter : ℤ} {now : Option DateTime}
    (hv : prog v = reconcileBatch limit staleAfter abandonPendingAfter now) {st : Store S}
    {xs : List (S × Outside)} {cfg : Config Cmd.Ans Exn Unit S (Store S)}
    (hrun : (start prog st).run exec xs = some cfg) :
    ∀ l (e : LogEntry S) l', cfg.log = l ++ e :: l' → e.session = v → Batches (own v l) e.cmd := by
  have hobeys : ((start prog st).prog v).Obeys Batches (fun _ _ => True) [] := by
    show (prog v).Obeys Batches (fun _ _ => True) []
    rw [hv]
    exact reconcileBatch_batches limit staleAfter abandonPendingAfter now
  exact fun l e l' hl hs => Config.run_obeys_one v Batches rfl hobeys hrun hl hs

/-- A row the batch records is that of a call that holds the user: the call took
    the lock, made its reads, and resolved them. -/
theorem call_of_upsert {log : List (LogEntry S)}
    (hspec : ∀ l (e : LogEntry S) l', log = l ++ e :: l' → e.session = v → Batches (own v l) e.cmd)
    {k k' : List (LogEntry S)} {eu : LogEntry S} {sub : FlashSubscription} {i : ℕ}
    {granted : Option SchedulingId} (hlog : log = k ++ eu :: k') (hs : eu.session = v)
    (hc : eu.cmd = .upsertUserSubscription p sub i granted) :
    RollbackRead (own v k) ∧ ∃ l el m skip res, k = l ++ el :: m ∧ el.session = v ∧
      (⟨el.cmd, el.ans⟩ : Σ c, Cmd.Ans c) = ⟨.lockUserForUpdate p skip, true⟩ ∧
      Candidate p (own v l) ∧ Resolves p sub res (own v m) ∧ granted = res.grantedSchedulingId := by
  obtain ⟨hr, h₀, skip, t, res, ho, hcand, hres, hgranted⟩ := (hspec k eu k' hlog hs).records hc
  obtain ⟨l, el, m, rfl, hsl, hcl, rfl, rfl⟩ := own_split ho
  exact ⟨hr, l, el, m, skip, res, rfl, hsl, hcl, hcand, hres, hgranted⟩

/-- **The grant a call carries forward is the committed one** exactly if the grant
    committed when the call took the lock is the one committed when the batch
    loaded its candidates. -/
theorem carried_grant_current_iff (prog : S → Billing Unit) (v : S) {limit : ℕ}
    {staleAfter abandonPendingAfter : ℤ} {now : Option DateTime}
    (hv : prog v = reconcileBatch limit staleAfter abandonPendingAfter now) {st : Store S}
    (hq : st.Quiet) {xs : List (S × Outside)} {cfg : Config Cmd.Ans Exn Unit S (Store S)}
    (hrun : (start prog st).run exec xs = some cfg) :
    ∀ k (eu : LogEntry S) k' p sub i granted, cfg.log = k ++ eu :: k' → eu.session = v →
      eu.cmd = .upsertUserSubscription p sub i granted →
      ∃ l₁, ∃ es : LogEntry S, ∃ l₂, ∃ el : LogEntry S, ∃ m res, k = l₁ ++ es :: (l₂ ++ el :: m) ∧
        (es.session = v ∧ ∃ at_ staleAfter limit rule,
          es.cmd = .selectReconcileCandidates at_ staleAfter limit rule) ∧
        (el.session = v ∧ ∃ skip,
          (⟨el.cmd, el.ans⟩ : Σ c, Cmd.Ans c) = ⟨.lockUserForUpdate p skip, true⟩) ∧
        Resolves p sub res (own v m) ∧ granted = res.grantedSchedulingId ∧
        (res.reason ∈ [EntitlementReason.held, .blocked, .adminOverride] →
          (granted = grantOf (el.before.subscription.committed p) ↔
            grantOf (el.before.subscription.committed p) =
              grantOf (es.before.subscription.committed p))) := by
  obtain ⟨es₀, hes, ht⟩ := Config.run_trace hrun
  have hlog₀ : cfg.log = es₀ := hes
  rw [← hlog₀] at ht
  have hspec := batch_spec prog v hv hrun
  intro k eu k' p sub i granted hlog hs hc
  obtain ⟨hr, k₁, el, m, skip, res, rfl, hsl, hcl, hcand, hres, hgranted⟩ :=
    call_of_upsert hspec hlog hs hc
  have htk := ht
  rw [hlog] at htk
  have hrb := hr.no_rollback htk.split_cons.1
  obtain ⟨at_, stale, lim, rule, rows, hsel, hp⟩ := hcand
  obtain ⟨g₁, g₂, hg⟩ := List.append_of_mem hsel
  obtain ⟨l₁, es, l₂, rfl, hss, hcs, -, -⟩ := own_split hg
  refine ⟨l₁, es, l₂, el, m, res, by simp, ⟨hss, at_, stale, lim, rule, congrArg Sigma.fst hcs⟩,
    ⟨hsl, skip, hcl⟩, hres, hgranted, fun hreason => ?_⟩
  obtain ⟨-, existing, plan, now', blocked, source, hread, -, -, -, -, rfl⟩ := hres
  -- the read of the row on file, within the call
  obtain ⟨f₁, f₂, hf⟩ := List.append_of_mem hread
  obtain ⟨m₁, er, m₂, rfl, hsr, hcr, -, -⟩ := own_split hf
  have hlog' : cfg.log = l₁ ++ es :: ((l₂ ++ el :: m₁) ++ er :: (m₂ ++ eu :: k')) := by
    rw [hlog]
    simp
  have hr' : ∀ x ∈ own v (l₂ ++ el :: m₁), x.1 ≠ .rollback := by
    intro x hx
    refine hrb x ?_
    simp only [own_append, own_cons_self hss, own_cons_self hsl, List.mem_append,
      List.mem_cons] at hx ⊢
    tauto
  have hexisting : grantOf existing = grantOf (es.before.subscription.committed p) :=
    grant_of_call hq ht hspec hlog' hss hcs hp hsr hcr hr'
  have hcarried : granted = grantOf existing := by
    rw [hgranted]
    exact carried_of_reason hreason
  rw [hcarried, hexisting]
  exact eq_comm

end

/-! ## Small runs -/

/-- A payer on policy 7 whose renewal Flash is still retrying. -/
def pastDuePayer : Store Bool :=
  sampleStore (fun p => if p = "alice" then some ⟨some 7, .billing, false⟩ else none)
    (fun p => if p = "alice" then some (recordSubscription
      (sampleSubscription "sub_1" "past_due" (some "alice")) 0 (some 7) 10 none) else none) ["alice"]

/-- Session `true` reconciles at 2000, beside whatever session `false` does. -/
def batchBeside (other : Billing Unit) (s : Bool) : Billing Unit :=
  if s then reconcileBatch 10 1000 1000 (some 2000) else dbSession other

/-- The run up to the row the batch records: session `false` executes `n` commands
    right after the batch has loaded its candidates. -/
def duringBatch (other : Billing Unit) (n : ℕ) :
    Option (Config Cmd.Ans Exn Unit Bool (Store Bool)) :=
  (start (batchBeside other) pastDuePayer).run exec
    (List.replicate 1 (true, flashReports (sampleSubscription "sub_1" "past_due" (some "alice")) 2000) ++
      List.replicate n (false, flashReports (sampleSubscription "sub_1" "past_due" (some "alice")) 2000) ++
      List.replicate 10 (true, flashReports (sampleSubscription "sub_1" "past_due" (some "alice")) 2000))

/-- What a log ends with: the grant recorded for whom, and by which session. -/
def lastRecord (cfg : Config Cmd.Ans Exn Unit Bool (Store Bool)) :
    Option (Bool × Option (Pubkey × FlashSubscription × Option SchedulingId)) :=
  cfg.log.getLast?.map fun e => (e.session, match e.cmd with
    | .upsertUserSubscription p sub _ granted => some (p, sub, granted)
    | _ => none)

theorem upsert_of_lastRecord {cfg : Config Cmd.Ans Exn Unit Bool (Store Bool)} {p : Pubkey}
    {sub : FlashSubscription} {granted : Option SchedulingId}
    (h : lastRecord cfg = some (true, some (p, sub, granted))) :
    ∃ k, ∃ eu : LogEntry Bool, ∃ i, cfg.log = k ++ [eu] ∧ eu.session = true ∧
      eu.cmd = .upsertUserSubscription p sub i granted := by
  simp only [lastRecord, Option.map_eq_some_iff, Prod.mk.injEq] at h
  obtain ⟨eu, heu, hs, hc⟩ := h
  obtain ⟨k, hk⟩ := List.getLast?_eq_some_iff.1 heu
  revert hc
  cases hcmd : eu.cmd with
  | upsertUserSubscription q sub' i g =>
    intro hc
    simp only [Option.some.injEq, Prod.mk.injEq] at hc
    obtain ⟨rfl, rfl, rfl⟩ := hc
    exact ⟨k, eu, i, hk, hs, hcmd⟩
  | _ =>
    intro hc
    simp at hc

/-- The grants committed where the batch takes a lock, and the times it reads. -/
def lockGrants (cfg : Config Cmd.Ans Exn Unit Bool (Store Bool)) :
    List (Option SchedulingId) × List DateTime :=
  ((cfg.log.filter fun e => e.session && (match e.cmd with
      | .lockUserForUpdate _ _ => true
      | _ => false)).map fun e => grantOf (e.before.subscription.committed "alice"),
    (own true cfg.log).filterMap fun x => match x with
      | ⟨.utcNow, t⟩ => some t
      | _ => none)

/-- The decision of a call of these runs is HOLD. -/
theorem held_of_lockGrants {cfg : Config Cmd.Ans Exn Unit Bool (Store Bool)}
    {gs : List (Option SchedulingId)} (h : lockGrants cfg = (gs, [2000])) {t : Hist}
    {res : Resolution} (ht : ∀ x ∈ t, x ∈ own true cfg.log)
    (hres : Resolves "alice" (sampleSubscription "sub_1" "past_due" (some "alice")) res t) :
    res.reason = .held := by
  obtain ⟨-, existing, plan, now, blocked, source, -, -, hnow, -, -, rfl⟩ := hres
  have htime : now ∈ [(2000 : DateTime)] := by
    rw [← (Prod.mk.inj h).2]
    exact List.mem_filterMap.2 ⟨_, ht _ hnow, rfl⟩
  have hhold : (sampleSubscription "sub_1" "past_due" (some "alice")).decide now = .hold := by
    rw [List.mem_singleton.1 htime]
    decide
  rw [hhold]
  rfl

/-- The grant committed where the batch took the lock. -/
theorem grant_of_lockGrants {cfg : Config Cmd.Ans Exn Unit Bool (Store Bool)}
    {g : Option SchedulingId} {ts : List DateTime} (h : lockGrants cfg = ([g], ts))
    {el : LogEntry Bool} {skip : Bool} (hel : el ∈ cfg.log) (hs : el.session = true)
    (hc : (⟨el.cmd, el.ans⟩ : Σ c, Cmd.Ans c) = ⟨.lockUserForUpdate "alice" skip, true⟩) :
    grantOf (el.before.subscription.committed "alice") = g := by
  have hlock : el.cmd = .lockUserForUpdate "alice" skip := congrArg Sigma.fst hc
  have hmem : grantOf (el.before.subscription.committed "alice") ∈ [g] := by
    rw [← (Prod.mk.inj h).1]
    refine List.mem_map.2 ⟨el, List.mem_filter.2 ⟨hel, ?_⟩, rfl⟩
    rw [hs, hlock]
    rfl
  exact List.mem_singleton.1 hmem

/-- **A grant taken back is resurrected.**  An admin blocks the payer after the
    batch has loaded its candidates; the block takes the grant back, and the
    batch, holding the decision, writes it again. -/
theorem carried_grant_resurrected :
    ∃ cfg k, ∃ eu : LogEntry Bool, ∃ sub i, duringBatch (discard (setBillingBlock "alice" true)) 9 = some cfg ∧
      cfg.log = k ++ [eu] ∧ eu.session = true ∧
      eu.cmd = .upsertUserSubscription "alice" sub i (some 7) ∧
      ∃ l, ∃ el : LogEntry Bool, ∃ m skip res, k = l ++ el :: m ∧ el.session = true ∧
        (⟨el.cmd, el.ans⟩ : Σ c, Cmd.Ans c) = ⟨.lockUserForUpdate "alice" skip, true⟩ ∧
        Resolves "alice" sub res (own true m) ∧ res.reason = .held ∧
        res.grantedSchedulingId = some 7 ∧
        grantOf (el.before.subscription.committed "alice") = none := by
  have h : (duringBatch (discard (setBillingBlock "alice" true)) 9).bind lastRecord =
      some (true, some ("alice", sampleSubscription "sub_1" "past_due" (some "alice"), some 7)) := by
    decide
  have hgrants : (duringBatch (discard (setBillingBlock "alice" true)) 9).map lockGrants =
      some ([none], [2000]) := by
    decide
  obtain ⟨cfg, hcfg, hlast⟩ := Option.bind_eq_some_iff.1 h
  rw [hcfg, Option.map_some, Option.some.injEq] at hgrants
  obtain ⟨k, eu, i, hlog, hs, hc⟩ := upsert_of_lastRecord hlast
  have hspec := batch_spec (batchBeside (discard (setBillingBlock "alice" true))) true rfl hcfg
  obtain ⟨-, l, el, m, skip, res, rfl, hsl, hcl, -, hres, hgranted⟩ :=
    call_of_upsert hspec hlog hs hc
  refine ⟨cfg, _, eu, _, i, hcfg, hlog, hs, hc, l, el, m, skip, res, rfl, hsl, hcl, hres, ?_,
    hgranted.symm, grant_of_lockGrants hgrants (by rw [hlog]; simp) hsl hcl⟩
  refine held_of_lockGrants hgrants (fun x hx => ?_) hres
  rw [hlog]
  simp only [own_append, own_cons_self hsl, List.mem_append, List.mem_cons]
  exact Or.inl (Or.inr (Or.inr hx))

/-- How often the other session of a log commits. -/
def othersCommits (cfg : Config Cmd.Ans Exn Unit Bool (Store Bool)) : ℕ :=
  (cfg.log.filter fun e => !e.session && (match e.cmd with
    | .commit => true
    | _ => false)).length

/-- The payer is unblocked after the batch has loaded its candidates, which leaves the grant as
    it is: the grant recorded is the one loaded. -/
theorem carried_grant_current_iff_beside :
    ∃ cfg, ∃ k : List (LogEntry Bool), ∃ eu : LogEntry Bool, ∃ sub i,
      duringBatch (discard (setBillingBlock "alice" false)) 6 = some cfg ∧
      othersCommits cfg = 2 ∧ cfg.log = k ++ [eu] ∧ eu.session = true ∧
      eu.cmd = .upsertUserSubscription "alice" sub i (some 7) ∧
      ∃ es ∈ k, ∃ el ∈ k, grantOf (el.before.subscription.committed "alice") = some 7 ∧
        grantOf (es.before.subscription.committed "alice") = some 7 := by
  have h : (duringBatch (discard (setBillingBlock "alice" false)) 6).bind lastRecord =
      some (true, some ("alice", sampleSubscription "sub_1" "past_due" (some "alice"), some 7)) := by
    decide
  have hgrants : (duringBatch (discard (setBillingBlock "alice" false)) 6).map lockGrants =
      some ([some 7], [2000]) := by
    decide
  have hcommits : (duringBatch (discard (setBillingBlock "alice" false)) 6).map othersCommits = some 2 := by
    decide
  obtain ⟨cfg, hcfg, hlast⟩ := Option.bind_eq_some_iff.1 h
  rw [hcfg, Option.map_some, Option.some.injEq] at hgrants hcommits
  obtain ⟨k, eu, i, hlog, hs, hc⟩ := upsert_of_lastRecord hlast
  obtain ⟨l₁, es, l₂, el, m, res, rfl, ⟨hss, -⟩, ⟨hsl, skip, hcl⟩, hres, -, hiff⟩ :=
    carried_grant_current_iff (batchBeside (discard (setBillingBlock "alice" false))) true rfl
      (sampleStore_quiet _ _ _) hcfg k eu [] "alice" _ i _ hlog hs hc
  have hlock := grant_of_lockGrants hgrants (by rw [hlog]; simp) hsl hcl
  have hheld : res.reason = .held := by
    refine held_of_lockGrants hgrants (fun x hx => ?_) hres
    rw [hlog]
    simp only [own_append, own_cons_self hss, own_cons_self hsl, List.mem_append, List.mem_cons]
    exact Or.inl (Or.inr (Or.inr (Or.inr (Or.inr hx))))
  have hsame := (hiff (by simp [hheld])).1 hlock.symm
  refine ⟨cfg, _, eu, _, i, hcfg, hcommits, hlog, hs, hc, es, by simp, el, by simp, hlock, ?_⟩
  rw [← hsame]
  exact hlock

end BrainstormServer
