/-
  The cap on open tickets.

  A filing counts its user's unclosed tickets while it holds the filing lock.  A reply
  to a closed ticket and a reopening make a ticket unclosed too; they count nothing.

  * `filings`: what has been filed and is not committed;
  * `Guarded`: a commit that reopens tickets stays below the cap, filings counted;
  * `open_tickets_capped`: where every commit is guarded, the cap holds;
  * `reply_past_the_cap`: five tickets, one of them resolved, a sixth filed, and a
    reply to the one that was resolved.
-/
import BrainstormServer.Support.System

namespace BrainstormServer

namespace Support

open Conc

section
variable {S : Type} [DecidableEq S]

/-- Whether a commit takes a ticket out of the closed state. -/
def Pending.reopens (p : Pending S) (db : Db) : Bool :=
  db.tickets.any fun t => t.id = p.id ∧ t.status = .closed ∧ p.draft.ticket.status ≠ .closed

/-- The tickets of a user that are filed and not committed. -/
def filings (pending : List (Pending S)) (pubkey : String) : ℕ :=
  pending.countP fun p => p.filing.isSome ∧ p.draft.ticket.pubkey = pubkey

/-- The tickets of a user that the commit of `s` will reopen. -/
def reopenings (s : S) (db : Db) (pending : List (Pending S)) (pubkey : String) : ℕ :=
  pending.countP fun p => p.session = s ∧ p.reopens db ∧ p.draft.ticket.pubkey = pubkey

/-- The commit of `s` reopens nothing, or leaves room for what it reopens. -/
def Guarded (settings : Settings) (st : Store S) (s : S) : Prop :=
  ∀ pubkey, reopenings s st.db st.pending pubkey = 0 ∨
    countUnclosedSupportTickets st.db pubkey + filings st.pending pubkey +
      reopenings s st.db st.pending pubkey ≤ settings.supportMaxOpenTickets

/-- The invariant: filings count as open, and hold the lock of their user. -/
structure Capped (settings : Settings) (st : Store S) : Prop where
  sound : st.Sound
  lock : ∀ p ∈ st.pending, ∀ key ∈ p.filing, key = settings.hashtext p.draft.ticket.pubkey
  cap : ∀ pubkey, countUnclosedSupportTickets st.db pubkey + filings st.pending pubkey ≤
    settings.supportMaxOpenTickets

/-! ## Committing -/

/-- Unclosed tickets, filings and what `s` reopens, together. -/
def load (s : S) (db : Db) (pending : List (Pending S)) (pubkey : String) : ℕ :=
  countUnclosedSupportTickets db pubkey + filings pending pubkey + reopenings s db pending pubkey

omit [DecidableEq S] in
theorem reopens_commit {p q : Pending S} {db : Db} (hne : q.id ≠ p.id) :
    q.reopens (db.commit p.draft) = q.reopens db := by
  unfold Pending.reopens
  rw [Bool.eq_iff_iff, List.any_eq_true, List.any_eq_true]
  constructor
  · rintro ⟨t, ht, hq⟩
    rcases mem_commit.1 ht with rfl | ⟨ht, -⟩
    · simp only [decide_eq_true_eq] at hq
      exact absurd hq.1.symm hne
    · exact ⟨t, ht, hq⟩
  · rintro ⟨t, ht, hq⟩
    have hid : t.id = q.id := by
      simp only [decide_eq_true_eq] at hq
      exact hq.1
    exact ⟨t, mem_commit.2 (.inr ⟨ht, fun heq => hne (hid.symm.trans heq)⟩), hq⟩

/-- A count over a list with one element more. -/
theorem countP_middle {α : Type} (P : α → Bool) (a : α) (as bs : List α) :
    (as ++ a :: bs).countP P = (as ++ bs).countP P + if P a then 1 else 0 := by
  rw [List.countP_append, List.countP_append, List.countP_cons]
  omega

/-- Another draft's reopenings stay what they are. -/
theorem reopenings_commit {s : S} {p : Pending S} {db : Db} {qs : List (Pending S)}
    (hne : ∀ q ∈ qs, q.id ≠ p.id) (pubkey : String) :
    reopenings s (db.commit p.draft) qs pubkey = reopenings s db qs pubkey := by
  refine List.countP_congr fun q hq => ?_
  rw [reopens_commit (hne q hq)]

omit [DecidableEq S] in
/-- A draft of a new ticket moves from the filings to the open tickets. -/
theorem unclosed_commit_new {db : Db} {p : Pending S} (hp : p.Fits db) (hf : p.filing.isSome) (pubkey : String) :
    countUnclosedSupportTickets (db.commit p.draft) pubkey ≤ countUnclosedSupportTickets db pubkey +
      if p.filing.isSome ∧ p.draft.ticket.pubkey = pubkey then 1 else 0 := by
  unfold countUnclosedSupportTickets
  rw [tickets_commit_new (hp.new hf), List.countP_append, List.countP_singleton]
  refine Nat.add_le_add_left ?_ _
  by_cases hk : p.draft.ticket.pubkey = pubkey
  · have hbit : p.filing.isSome = true ∧ p.draft.ticket.pubkey = pubkey := ⟨hf, hk⟩
    simp only [hbit, and_self, if_true]
    split_ifs <;> omega
  · simp [hk]

omit [DecidableEq S] in
/-- A draft of a ticket adds an open one only if it reopens it. -/
theorem unclosed_commit_held {db : Db} {p : Pending S} (hn : (db.tickets.map SupportTicket.id).Nodup)
    (hp : p.Fits db) (hf : p.filing = none) (pubkey : String) :
    countUnclosedSupportTickets (db.commit p.draft) pubkey ≤ countUnclosedSupportTickets db pubkey +
      if p.reopens db ∧ p.draft.ticket.pubkey = pubkey then 1 else 0 := by
  obtain ⟨t, ht, hid, hkey, -⟩ := hp.held hf
  obtain ⟨as, bs, hsplit⟩ := List.append_of_mem ht
  unfold countUnclosedSupportTickets
  rw [tickets_commit_held hn hsplit hid, hsplit, countP_middle, countP_middle, Nat.add_assoc]
  refine Nat.add_le_add_left ?_ _
  by_cases hk : p.draft.ticket.pubkey = pubkey
  · by_cases hopen : t.status = .closed ∧ p.draft.ticket.status ≠ .closed
    · have hre : p.reopens db = true :=
        List.any_eq_true.2 ⟨t, ht, by simp [hid, hopen.1, hopen.2]⟩
      have hbit : p.reopens db = true ∧ p.draft.ticket.pubkey = pubkey := ⟨hre, hk⟩
      simp only [hbit, and_self, if_true]
      split_ifs <;> omega
    · simp only [hkey, hk, true_and, decide_not, Bool.not_eq_true', decide_eq_false_iff_not]
      by_cases hc : p.draft.ticket.status = .closed
      · simp [hc]
      · have hlive : t.status ≠ .closed := fun heq => hopen ⟨heq, hc⟩
        simp [hc, hlive]
  · simp [hk]

/-- **The load does not grow** when a draft of `s` is committed. -/
theorem load_settle (st : Store S) {qs ps : List (Pending S)} {p : Pending S} {s : S}
    (h : Store.Sound { st with pending := qs ++ p :: ps }) (hs : p.session = s) (pubkey : String) :
    load s (st.db.commit p.draft) (qs ++ ps) pubkey ≤ load s st.db (qs ++ p :: ps) pubkey := by
  have hp : p ∈ qs ++ p :: ps := by simp
  have hfits := h.fits p hp
  unfold load
  rw [reopenings_commit (h.apart rfl)]
  simp only [filings, reopenings, countP_middle, decide_eq_true_eq]
  by_cases hf : p.filing.isSome = true
  · have hgrow := unclosed_commit_new hfits hf pubkey
    dsimp only at hgrow
    omega
  · have hgrow := unclosed_commit_held h.nodup hfits (by simpa using hf) pubkey
    dsimp only at hgrow
    simp only [hs, true_and]
    omega

theorem load_commitAll (st : Store S) (s : S) (pubkey : String) : ∀ (ps qs : List (Pending S)) {db : Db},
    Store.Sound { st with db := db, pending := qs ++ ps } →
      load s (commitAll s ps db) (qs ++ ps.filter fun p => p.session ≠ s) pubkey ≤
        load s db (qs ++ ps) pubkey := by
  intro ps
  induction ps with
  | nil =>
    intro qs db _
    exact le_rfl
  | cons p ps ih =>
    intro qs db h
    rw [commitAll]
    by_cases hs : p.session = s
    · rw [if_pos hs, List.filter_cons_of_neg (by simpa using hs)]
      exact (ih qs (Store.Sound.settle { st with db := db } h)).trans
        (load_settle { st with db := db } h hs pubkey)
    · rw [if_neg hs, List.filter_cons_of_pos (by simpa using hs), List.append_cons qs p ps,
        List.append_cons qs p (ps.filter _)]
      exact ih _ (by rwa [List.append_cons] at h)

theorem Capped.commit {settings : Settings} {st : Store S} (h : Capped settings st) {s : S}
    (hg : Guarded settings st s) : Capped settings (st.commit s) where
  sound := h.sound.commit s
  lock p hp := h.lock p (List.mem_of_mem_filter hp)
  cap pubkey := by
    have hload := load_commitAll st s pubkey st.pending [] h.sound
    unfold load at hload
    have hcap := h.cap pubkey
    simp only [Store.commit, List.nil_append] at hload ⊢
    rcases hg pubkey with hg | hg
    · omega
    · omega

/-! ## Filing -/

omit [DecidableEq S] in
theorem filings_push (st : Store S) (p : Pending S) (pubkey : String) :
    filings (st.push p).pending pubkey =
      filings st.pending pubkey + if p.filing.isSome ∧ p.draft.ticket.pubkey = pubkey then 1 else 0 := by
  unfold filings Store.push
  rw [List.countP_cons]
  simp only [decide_eq_true_eq]

omit [DecidableEq S] in
/-- What is no filing leaves the load as it is. -/
theorem Capped.push {settings : Settings} {st : Store S} (h : Capped settings st) {p : Pending S}
    (hp : p.filing = none) (hsound : (st.push p).Sound) : Capped settings (st.push p) where
  sound := hsound
  lock q hq key hkey := by
    rcases List.mem_cons.1 hq with rfl | hq
    · rw [hp] at hkey
      cases hkey
    · exact h.lock q hq key hkey
  cap pubkey := by
    rw [filings_push]
    simpa [hp, Store.push] using h.cap pubkey

omit [DecidableEq S] in
/-- While no filing holds the lock of a user, the user has none in flight. -/
theorem Capped.no_filings {settings : Settings} {st : Store S} (h : Capped settings st) {pubkey : String}
    (hfree : ∀ p ∈ st.pending, p.filing ≠ some (settings.hashtext pubkey)) :
    filings st.pending pubkey = 0 := by
  refine List.countP_eq_zero.2 fun p hp hfile => ?_
  simp only [decide_eq_true_eq] at hfile
  obtain ⟨key, hkey⟩ := Option.isSome_iff_exists.1 hfile.1
  have heq := h.lock p hp key hkey
  rw [hfile.2] at heq
  exact hfree p hp (by rw [hkey, heq])

omit [DecidableEq S] in
/-- A filing, below the cap and with the lock of its user. -/
theorem Capped.file {settings : Settings} {st : Store S} (h : Capped settings st) {p : Pending S}
    (hkey : p.filing = some (settings.hashtext p.draft.ticket.pubkey))
    (hfree : ∀ q ∈ st.pending, q.filing ≠ some (settings.hashtext p.draft.ticket.pubkey))
    (hbelow : countUnclosedSupportTickets st.db p.draft.ticket.pubkey < settings.supportMaxOpenTickets)
    (hsound : (st.push p).Sound) : Capped settings (st.push p) where
  sound := hsound
  lock q hq key hq' := by
    rcases List.mem_cons.1 hq with rfl | hq
    · rw [hkey] at hq'
      exact (Option.some.inj hq').symm
    · exact h.lock q hq key hq'
  cap pubkey := by
    rw [filings_push]
    have hcap := h.cap pubkey
    show countUnclosedSupportTickets st.db pubkey + _ ≤ _
    by_cases hk : p.draft.ticket.pubkey = pubkey
    · subst hk
      rw [h.no_filings hfree]
      split_ifs <;> omega
    · simpa [hk] using hcap

omit [DecidableEq S] in
theorem busy_filing {settings : Settings} {st : Store S} {op : Operation} {key : ℤ}
    (h : st.busy settings op = false) (hkey : op.filing settings = some key) :
    ∀ p ∈ st.pending, p.filing ≠ some key := by
  unfold Store.busy at h
  rw [decide_eq_false_iff_not, not_or] at h
  intro p hp heq
  exact h.2 ⟨key, hkey, p, hp, heq⟩

theorem Change.capped {settings : Settings} {st st' : Store S} {e : Event S}
    (hc : Change settings st e st') (hg : ∀ s, e = .commit s → Guarded settings st s)
    (h : Capped settings st) : Capped settings st' := by
  have hsound := hc.sound h.sound
  cases hc with
  | none => exact h
  | execute s op now utcNow d hbusy hd =>
    rcases Operation.draft_cases hd with
      ⟨pubkey, subject, body, category, notifyEmail, diagnostics, reply, rfl, hcreate⟩ | ⟨ticket, ht, hid, hmoves⟩
    · obtain ⟨hbelow, hticket, -, -⟩ := createTicket_ok hcreate
      have hkey : (d.flush st.db now).ticket.pubkey = pubkey := by
        rw [flush_pubkey, hticket]
        rfl
      refine h.file ?_ ?_ ?_ hsound
      · rw [hkey]
        rfl
      · rw [hkey]
        exact busy_filing hbusy rfl
      · rw [hkey]
        exact hbelow
    · exact h.push (filing_eq_none hid) hsound
  | clear s now t ht hlocked => exact h.push rfl hsound
  | commit s => exact h.commit (hg s rfl)
  | rollback s =>
    refine ⟨hsound, fun p hp => h.lock p (List.mem_of_mem_filter hp), fun pubkey => ?_⟩
    refine le_trans (Nat.add_le_add_left ?_ _) (h.cap pubkey)
    exact List.filter_sublist.countP_le

end

/-- **The cap holds where nothing is reopened past it.**  In every interleaving whose
    commits are all guarded, no user holds more unclosed tickets than the cap. -/
theorem open_tickets_capped {S : Type} [DecidableEq S] (settings : Settings) (events : List (Event S))
    (st : State S) (h : Machine.run (step settings) events (initial S) = some st)
    (hguarded : ∀ before s after stBefore, events = before ++ .commit s :: after →
      Machine.run (step settings) before (initial S) = some stBefore → Guarded settings stBefore.store s) :
    ∀ pubkey, countUnclosedSupportTickets st.store.db pubkey ≤ settings.supportMaxOpenTickets := by
  have hcapped : Capped settings st.store := by
    refine Machine.run_inv_along (I := fun st => Capped settings st.store) ?_
      ⟨sound_initial, fun p hp => (by cases hp), fun pubkey => Nat.zero_le _⟩ h
    intro before e after st₁ st₂ hevents hrun hstep hI
    refine (step_change hstep).capped (fun s he => ?_) hI
    exact hguarded before s after st₁ (by rw [hevents, he]) hrun
  intro pubkey
  exact le_trans (Nat.le_add_right _ _) (hcapped.cap pubkey)

/-! ## Two runs -/

/-- Whether the commit of `s` is guarded, looking at its drafts only. -/
def guardedNow (settings : Settings) (st : Store ℕ) (s : ℕ) : Bool :=
  st.pending.all fun p => p.session ≠ s ∨ p.reopens st.db = false ∨
    load s st.db st.pending p.draft.ticket.pubkey ≤ settings.supportMaxOpenTickets

theorem guarded_of_guardedNow {settings : Settings} {st : Store ℕ} {s : ℕ}
    (h : guardedNow settings st s = true) : Guarded settings st s := by
  intro pubkey
  rcases Nat.eq_zero_or_pos (reopenings s st.db st.pending pubkey) with hzero | hpos
  · exact .inl hzero
  · obtain ⟨p, hp, hre⟩ := List.countP_pos_iff.1 hpos
    simp only [decide_eq_true_eq] at hre
    obtain ⟨hs, hre, rfl⟩ := hre
    have hnow := List.all_eq_true.1 h p hp
    simp only [decide_eq_true_eq, hs, hre, ne_eq, not_true_eq_false, Bool.true_eq_false, false_or] at hnow
    exact .inr hnow

/-- Whether an event is no commit, or guarded. -/
def guardedEvent (settings : Settings) : Event ℕ → State ℕ → Bool
  | .commit s, st => guardedNow settings st.store s
  | _, _ => true

theorem guarded_of_along {settings : Settings} {events : List (Event ℕ)}
    (h : Machine.along (step settings) (guardedEvent settings) events (initial ℕ) = true)
    (before : List (Event ℕ)) (s : ℕ) (after : List (Event ℕ)) (st : State ℕ)
    (hevents : events = before ++ .commit s :: after)
    (hrun : Machine.run (step settings) before (initial ℕ) = some st) : Guarded settings st.store s := by
  rw [hevents] at h
  have hnow : guardedEvent settings (.commit s) st = true := Machine.check_of_along h hrun
  exact guarded_of_guardedNow hnow

/-- One ticket, resolved and replied to. -/
def resolveThenReply : List (Event ℕ) :=
  userRequest 0 aliceFiles 1 ++ staffRequest 0 (.resolveTicket 1 "alice") 2 ++
    userRequest 0 (.addUserMessage 1 "alice" "again") 3

/-- A reply to the only ticket stays below the cap. -/
theorem reply_below_the_cap : ∃ st,
    Machine.run (step aliceSettings) resolveThenReply (initial ℕ) = some st ∧
    countUnclosedSupportTickets st.store.db "alice" = 1 ∧
    ∀ pubkey, countUnclosedSupportTickets st.store.db pubkey ≤ 5 := by
  have hcheck : ((Machine.run (step aliceSettings) resolveThenReply (initial ℕ)).map fun st =>
      countUnclosedSupportTickets st.store.db "alice") = some 1 := by decide
  obtain ⟨st, hrun, hone⟩ := Option.map_eq_some_iff.1 hcheck
  have halong : Machine.along (step aliceSettings) (guardedEvent aliceSettings) resolveThenReply
      (initial ℕ) = true := by decide
  exact ⟨st, hrun, hone, open_tickets_capped aliceSettings resolveThenReply st hrun
    (guarded_of_along halong)⟩

/-- Five tickets, the first resolved, a sixth filed, and a reply to the first. -/
def fiveAndAReply : List (Event ℕ) :=
  userRequest 0 aliceFiles 1 ++ userRequest 0 aliceFiles 2 ++ userRequest 0 aliceFiles 3 ++
    userRequest 0 aliceFiles 4 ++ userRequest 0 aliceFiles 5 ++
    staffRequest 0 (.resolveTicket 1 "alice") 6 ++ userRequest 0 aliceFiles 7 ++
    userRequest 0 (.addUserMessage 1 "alice" "again") 8

/-- **The cap does not hold.**  A reply to a closed ticket counts nothing. -/
theorem reply_past_the_cap : ∃ st,
    Machine.run (step aliceSettings) fiveAndAReply (initial ℕ) = some st ∧
    ¬ ∀ pubkey, countUnclosedSupportTickets st.store.db pubkey ≤ aliceSettings.supportMaxOpenTickets := by
  have hcheck : ((Machine.run (step aliceSettings) fiveAndAReply (initial ℕ)).map fun st =>
      countUnclosedSupportTickets st.store.db "alice") = some 6 := by decide
  obtain ⟨st, hrun, hsix⟩ := Option.map_eq_some_iff.1 hcheck
  refine ⟨st, hrun, fun hall => ?_⟩
  have hle := hall "alice"
  rw [hsix] at hle
  exact absurd hle (by decide)

end Support

end BrainstormServer
