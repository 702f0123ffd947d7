/-
  One pass at a time works an event.

  A pass of `replay_unprocessed_events` reads the clock once, and claims each
  event of its batch with that reading when it gets to it.  A claim therefore
  names a time (`Claim.at_`) that lies before the one it is made at
  (`Claim.time`), by the pass's `Claim.lag`.

  * The claim's `UPDATE` is a compare-and-set: of two claims of one event, one
    after the other, the second names a time at least the window after the
    first's (`claimsOf_apart`);
  * so the window separates the claims themselves as long as no claim is made
    with a longer lag than the next one of the same event
    (`claims_apart_of_lag`).
-/
import BrainstormServer.Billing.Alone
import BrainstormServer.Billing.Commands
import Mathlib.Data.List.Chain
import Mathlib.Tactic.Linarith

namespace BrainstormServer

open Conc Prog

/-! ## Claims -/

/-- The event and the time a claim names, if the command was one and succeeded. -/
def claimOf : (Σ c, Cmd.Ans c) → Option (ℕ × DateTime)
  | ⟨.claimWebhookEvent i at_ _, true⟩ => some (i, at_)
  | _ => none

/-- A claim of an event: by which session, naming which time, made when. -/
structure Claim (S : Type) where
  session : S
  at_ : DateTime
  time : DateTime
  deriving DecidableEq

/-- How long before the claim its pass read the clock. -/
def Claim.lag {S : Type} (c : Claim S) : ℤ := c.time - c.at_

/-- A log, each entry with the time it was executed at. -/
def timedLog {S α : Type} (cfg : Config Cmd.Ans Exn α S (Store S)) (xs : List (S × Outside)) :
    List (LogEntry S × DateTime) :=
  cfg.log.zip (xs.map (·.2.now))

/-- The claim an entry makes of the event `i`. -/
def entryClaim {S : Type} (i : ℕ) (x : LogEntry S × DateTime) : Option (Claim S) :=
  (claimOf ⟨x.1.cmd, x.1.ans⟩).bind fun c =>
    if c.1 = i then some ⟨x.1.session, c.2, x.2⟩ else none

/-- The claims of the event `i`, in order. -/
def claimsOf {S : Type} (i : ℕ) (tl : List (LogEntry S × DateTime)) : List (Claim S) :=
  tl.filterMap (entryClaim i)

theorem claim_of_claimOf {c : Cmd} {a : c.Ans} {i : ℕ} {t : DateTime}
    (h : claimOf ⟨c, a⟩ = some (i, t)) : ∃ w, c = .claimWebhookEvent i t w ∧ HEq a true := by
  cases c with
  | claimWebhookEvent j t' w =>
    cases a with
    | true =>
      cases h
      exact ⟨w, rfl, HEq.rfl⟩
    | false => cases h
  | _ => cases h

/-! ## What a pass does -/

def Cmd.isClaim : Cmd → Bool
  | claimWebhookEvent _ _ _ => true
  | _ => false

/-- The session's last command was a claim, and it succeeded. -/
def JustClaimed (h : Hist) : Prop := ∃ h' x, h = h' ++ [x] ∧ (claimOf x).isSome = true

/-- A session claims with the window `stale`, and commits a claim at once. -/
def Claiming (stale : ℤ) (h : Hist) (c : Cmd) : Prop :=
  (∀ i at_ w, c = .claimWebhookEvent i at_ w → w = stale) ∧ (JustClaimed h → c = .commit)

section
variable {stale : ℤ} {α : Type} {h : Hist}

theorem not_justClaimed_nil : ¬ JustClaimed [] := by
  rintro ⟨h', x, hx, -⟩
  simp at hx

theorem not_justClaimed_snoc {c : Cmd} (a : c.Ans) (hc : c.isClaim = false) :
    ¬ JustClaimed (h ++ [⟨c, a⟩]) := by
  rintro ⟨h', x, hx, hclaim⟩
  obtain rfl := (List.cons.inj (List.append_inj' hx rfl).2).1
  cases c with
  | claimWebhookEvent i at_ w => cases hc
  | _ => cases hclaim

theorem claiming_of_not {c : Cmd} (hc : c.isClaim = false) (hh : ¬ JustClaimed h) :
    Claiming stale h c := by
  refine ⟨?_, fun hj => absurd hj hh⟩
  rintro i at_ w rfl
  cases hc

/-- A program without claims, where none is waiting for its commit. -/
theorem Uses.claiming {p : Billing α} (hp : p.Uses fun c => c.isClaim = false)
    (hh : ¬ JustClaimed h) : p.Obeys (Claiming stale) (fun _ h' => ¬ JustClaimed h') h := by
  have hspec : ∀ (h : Hist) (c : Cmd), c.isClaim = false → ¬ JustClaimed h → Claiming stale h c :=
    fun _ _ => claiming_of_not
  exact Uses.obeys hspec (fun _ _ a hc _ => not_justClaimed_snoc a hc) hp hh

theorem not_isClaim_of_entitles {c : Cmd} (hc : c.entitles = true) : c.isClaim = false := by
  cases c with
  | claimWebhookEvent => cases hc
  | _ => rfl

theorem noteEventFailure_not_claims (i : ℕ) (reason : String) :
    (noteEventFailure i reason).Uses fun c => c.isClaim = false := by
  refine Uses.bind ⟨rfl, fun found => ?_⟩ fun _ => ⟨rfl, fun _ => ⟨rfl, fun _ => trivial⟩⟩
  cases found <;> trivial

theorem updateLastEventAt_not_claims (p : Option Pubkey) (t : Option DateTime) :
    (updateLastEventAt p t).Uses fun c => c.isClaim = false := by
  unfold updateLastEventAt
  split
  · exact ⟨rfl, fun _ => trivial⟩
  · trivial

theorem replayClaimed_not_claims (pyRepr : Exn → String) (at_ : DateTime) (i : ℕ)
    (event : FlashWebhookEvent) (target : EventData) :
    (replayClaimed pyRepr at_ i event target).Uses fun c => c.isClaim = false := by
  refine Uses.tryCatch ?_ fun e => ?_
  · refine (applyEntitlement_uses (fun _ => not_isClaim_of_entitles) _ _ _ _).bind fun outcome => ?_
    split_ifs
    · refine Uses.bind ⟨rfl, fun found => by cases found <;> trivial⟩ fun _ => ⟨rfl, fun _ => ?_⟩
      exact (updateLastEventAt_not_claims _ _).bind fun _ => ⟨rfl, fun _ => trivial⟩
    · exact (noteEventFailure_not_claims _ _).bind fun _ => trivial
  · cases e with
    | flashUnavailable m =>
      refine ⟨rfl, fun _ => (noteEventFailure_not_claims _ _).bind fun _ => ?_⟩
      exact (applyPayloadFallback_uses
        (fun _ hc => not_isClaim_of_entitles (Cmd.entitles_of_fallsBack hc)) _ _).bind fun _ => trivial
    | _ => exact ⟨rfl, fun _ => (noteEventFailure_not_claims _ _).bind fun _ => trivial⟩

/-- One turn: the claim is the only one, and it is committed before anything else. -/
theorem replayEvent_claiming (pyRepr : Exn → String) (at_ : DateTime) (i : ℕ)
    (event : FlashWebhookEvent) (hh : ¬ JustClaimed h) :
    (replayEvent pyRepr at_ stale i event).Obeys (Claiming stale)
      (fun _ h' => ¬ JustClaimed h') h := by
  unfold replayEvent instanceEventId
  simp only [await, bind_eq, call_bind, pure_eq]
  refine ⟨claiming_of_not rfl hh, fun found => ?_⟩
  cases found with
  | false => exact not_justClaimed_snoc _ rfl
  | true =>
    have hclaim : Claiming stale (h ++ [⟨.readEventInstance i, true⟩])
        (.claimWebhookEvent i at_ stale) := by
      refine ⟨?_, fun hj => absurd hj (not_justClaimed_snoc _ rfl)⟩
      rintro j t w ⟨⟩
      rfl
    refine ⟨hclaim, fun claimed => ?_⟩
    refine ⟨⟨(fun j t w hc => nomatch hc), fun _ => rfl⟩, fun _ => ?_⟩
    refine Uses.claiming ?_ (not_justClaimed_snoc _ rfl)
    cases claimed with
    | false => trivial
    | true =>
      simp only [if_true]
      cases event.payload with
      | none => exact (noteEventFailure_not_claims _ _).bind fun _ => trivial
      | some target => exact replayClaimed_not_claims _ _ _ _ _

theorem replayAll_claiming (pyRepr : Exn → String) (at_ : DateTime) :
    ∀ (events : List (ℕ × FlashWebhookEvent)) (n : ℕ) {h : Hist}, ¬ JustClaimed h →
      (replayAll pyRepr at_ stale events n).Obeys (Claiming stale)
        (fun _ h' => ¬ JustClaimed h') h := by
  intro events
  induction events with
  | nil => exact fun n h hh => hh
  | cons x events ih =>
    intro n h hh
    obtain ⟨i, event⟩ := x
    refine obeys_bind.2 (Obeys.mono ?_ (replayEvent_claiming pyRepr at_ i event hh))
    rintro (e | settled) h' hh'
    · exact hh'
    · exact ⟨claiming_of_not rfl hh', fun _ => ih _ (not_justClaimed_snoc _ rfl)⟩

/-- **A pass** claims with its window and commits every claim at once. -/
theorem pass_claiming (pyRepr : Exn → String) (limit maxAttempts : ℕ) :
    (discard (dbSession (replayUnprocessedEvents pyRepr limit stale maxAttempts))).Obeys
      (Claiming stale) (fun _ _ => True) [] := by
  have hbody : (replayUnprocessedEvents pyRepr limit stale maxAttempts).Obeys (Claiming stale)
      (fun _ h' => ¬ JustClaimed h') [] := by
    refine ⟨claiming_of_not rfl not_justClaimed_nil, fun at_ => ?_⟩
    refine ⟨claiming_of_not rfl (not_justClaimed_snoc _ rfl), fun events => ?_⟩
    exact replayAll_claiming pyRepr at_ events 0 (not_justClaimed_snoc _ rfl)
  refine obeys_discard ?_
  unfold dbSession
  rw [obeys_bind, obeys_tryCatch]
  refine Obeys.mono ?_ hbody
  rintro (e | n) h hh
  · exact ⟨claiming_of_not rfl hh, fun _ => trivial⟩
  · exact ⟨claiming_of_not rfl hh, fun _ =>
      ⟨claiming_of_not rfl (not_justClaimed_snoc _ rfl), fun _ => trivial⟩⟩

end

/-! ## The compare-and-set -/

section
variable {S : Type} [DecidableEq S] {s : S} {i : ℕ} {at_ : DateTime} {st st' : Store S}
  {ω : Outside}

theorem exec_claim_false {w : ℤ}
    (h : exec s (.claimWebhookEvent i at_ w) st ω = some (false, st')) : st' = st := by
  simp only [exec] at h
  split at h
  · cases h
    rfl
  · simp only [Option.map_eq_some_iff] at h
    obtain ⟨t, -, h⟩ := h
    cases h

theorem exec_claim_true {w : ℤ}
    (h : exec s (.claimWebhookEvent i at_ w) st ω = some (true, st')) :
    ∃ ev, st.event.view s i = some ev ∧ claimable at_ w ev = true ∧ st.event.free s i = true ∧
      st'.event = st.event.write s i
        (some { ev with processingStartedAt := some at_, attempts := ev.attempts + 1 }) := by
  simp only [exec] at h
  split at h
  · cases h
  · rename_i ev hev
    obtain ⟨hview, hclaimable⟩ := Option.filter_eq_some_iff.1 hev
    simp only [Option.map_eq_some_iff, Store.modifyEvent] at h
    obtain ⟨_, ⟨t, ht, rfl⟩, h⟩ := h
    cases h
    rcases TxTable.modify_cases ht with ⟨hnone, -⟩ | ⟨row, hrow, hfree, rfl⟩
    · rw [hview] at hnone
      cases hnone
    · rw [hview] at hrow
      cases hrow
      exact ⟨ev, hview, hclaimable, hfree, rfl⟩

/-- The event is there, and its claim names `at_`. -/
def StartedAt (at_ : DateTime) (r : Option FlashWebhookEvent) : Prop :=
  ∃ ev, r = some ev ∧ ev.processingStartedAt = some at_

/-- A session has claimed the event and not committed the claim. -/
structure InHandOf (s : S) (i : ℕ) (at_ : DateTime) (st : Store S) : Prop where
  lock : st.event.lock i = some s
  pending : ∃ r, st.event.pending s i = some r ∧ StartedAt at_ r

/-- After a log, the last claim of the event stands. -/
def Stands (i : ℕ) (l : List (LogEntry S)) (st : Store S) (c : Claim S) : Prop :=
  st.event.Everywhere i (StartedAt c.at_) ∨
    JustClaimed (own c.session l) ∧ InHandOf c.session i c.at_ st

/-- The commit of a claim lets everybody see it. -/
theorem InHandOf.commit (h : InHandOf s i at_ st) (ho : st.event.Owned) :
    (st.commit s).event.Everywhere i (StartedAt at_) := by
  obtain ⟨r, hr, hstarted⟩ := h.pending
  intro s'
  refine ⟨?_, fun r' hr' => ?_⟩
  · show StartedAt at_ (st.event.view s i)
    rw [TxTable.view, hr]
    exact hstarted
  · have hnone : (st.event.commit s).pending s' i = none := by
      by_cases hs : s' = s
      · simp [TxTable.commit, hs]
      · show Function.update st.event.pending s (fun _ => none) s' i = none
        rw [Function.update_of_ne hs]
        by_contra hp
        have hl := ho s' i hp
        rw [h.lock] at hl
        exact hs (Option.some.inj hl).symm
    rw [show (st.commit s).event = st.event.commit s from rfl, hnone] at hr'
    cases hr'

/-- Another session's command leaves a claim in hand. -/
theorem InHandOf.other {e : LogEntry S} (h : InHandOf s i at_ e.before) (he : e.Executed exec)
    (hs : e.session ≠ s) : InHandOf s i at_ e.after := by
  obtain ⟨ω, he⟩ := he
  obtain ⟨r, hr, hstarted⟩ := h.pending
  rcases exec_cases he with ⟨-, hx⟩ | ⟨-, ha⟩ | ⟨-, ha⟩
  · exact ⟨(hx.event.lock_other (Ne.symm hs)).2 h.lock,
      r, by rw [hx.event.pending_other (Ne.symm hs)]; exact hr, hstarted⟩
  all_goals
    rw [ha]
    refine ⟨?_, r, ?_, hstarted⟩
    · show (if e.before.event.lock i = some e.session then none else e.before.event.lock i) = some s
      rw [h.lock, if_neg fun hl => hs (Option.some.inj hl).symm]
    · show Function.update e.before.event.pending e.session (fun _ => none) s i = some r
      rw [Function.update_of_ne (Ne.symm hs)]
      exact hr

/-- Only a claim changes what time an event's claim names. -/
theorem started_of_eventUpdate {c : Cmd} {f : FlashWebhookEvent → FlashWebhookEvent}
    (hc : c.eventUpdate = some f) (hclaim : c.isClaim = false) (ev : FlashWebhookEvent) :
    (f ev).processingStartedAt = ev.processingStartedAt := by
  cases c with
  | claimWebhookEvent => cases hclaim
  | markWebhookEventProcessed | recordWebhookEventFailure | resetEventsAwaitingPlan
  | settleUnresolvedEvents =>
    cases hc
    rfl
  | _ => cases hc

/-- A command that is no successful claim of the event leaves what everybody
    sees of its claim. -/
theorem started_everywhere {e : LogEntry S} (he : e.Executed exec)
    (hnot : ∀ t, claimOf ⟨e.cmd, e.ans⟩ ≠ some (i, t)) (hcount : i < e.before.eventCount)
    (h : e.before.event.Everywhere i (StartedAt at_)) :
    e.after.event.Everywhere i (StartedAt at_) := by
  obtain ⟨ω, he⟩ := he
  obtain ⟨s', before, c, a, after⟩ := e
  by_cases hlost : ∃ t w, c = .claimWebhookEvent i t w
  · obtain ⟨t, w, rfl⟩ := hlost
    cases a with
    | true => exact absurd rfl (hnot t)
    | false =>
      rw [show after = before from exec_claim_false he]
      exact h
  · refine (exec_event he).everywhere h ?_ ?_
    · rintro f hf honly ev ⟨_, hev, hstarted⟩
      cases hev
      refine ⟨_, rfl, ?_⟩
      rw [started_of_eventUpdate hf ?_, hstarted]
      cases c with
      | claimWebhookEvent j t w =>
        have hj : j = i := honly
        exact absurd ⟨t, w, by rw [hj]⟩ hlost
      | _ => rfl
    · rintro new - hnew -
      omega

/-- A claim that stands keeps standing until the next claim of the event. -/
theorem Stands.step {stale : ℤ} {l : List (LogEntry S)} {e : LogEntry S} {c : Claim S}
    (h : Stands i l e.before c) (he : e.Executed exec) (ho : e.before.event.Owned)
    (hcount : i < e.before.eventCount) (hspec : Claiming stale (own e.session l) e.cmd)
    (hnot : ∀ t, claimOf ⟨e.cmd, e.ans⟩ ≠ some (i, t)) : Stands i (l ++ [e]) e.after c := by
  rcases h with hev | ⟨hjust, hhand⟩
  · exact Or.inl (started_everywhere he hnot hcount hev)
  · by_cases hs : e.session = c.session
    · -- the claim is committed next
      rw [← hs] at hjust hhand
      have hcommit := hspec.2 hjust
      obtain ⟨ω, he⟩ := he
      obtain ⟨s', before, cmd, a, after⟩ := e
      obtain rfl : cmd = .commit := hcommit
      simp only [exec, Option.some.injEq, Prod.mk.injEq] at he
      have hafter : after = before.commit s' := he.2.symm
      left
      show after.event.Everywhere i _
      rw [hafter]
      exact hhand.commit ho
    · rw [Stands, own_append_singleton, if_neg hs]
      exact Or.inr ⟨hjust, hhand.other he hs⟩

/-- A claim that succeeds names a time the window after the one before it. -/
theorem Stands.apart {stale : ℤ} {l : List (LogEntry S)} {e : LogEntry S} {c : Claim S}
    {t : DateTime} (h : Stands i l e.before c) (he : e.Executed exec)
    (hspec : Claiming stale (own e.session l) e.cmd)
    (hclaim : claimOf ⟨e.cmd, e.ans⟩ = some (i, t)) : c.at_ + stale ≤ t := by
  obtain ⟨ω, he⟩ := he
  obtain ⟨s', before, cmd, a, after⟩ := e
  obtain ⟨w, rfl, rfl⟩ := claim_of_claimOf hclaim
  obtain rfl : w = stale := hspec.1 i t w rfl
  obtain ⟨ev, hview, hclaimable, hfree, -⟩ := exec_claim_true he
  rcases h with hev | ⟨hjust, hhand⟩
  · obtain ⟨ev', hev', hstarted⟩ := (hev s').view
    rw [hview] at hev'
    cases hev'
    simp only [claimable, hstarted, reduceCtorEq, sqlLe, Option.map_some, Option.some.injEq,
      decide_eq_true_eq, false_or] at hclaimable
    exact Int.add_le_of_le_sub_right hclaimable.2
  · by_cases hs : s' = c.session
    · rw [← hs] at hjust
      exact absurd (hspec.2 hjust) (by simp)
    · have hlock : before.event.lock i = some c.session := hhand.lock
      simp only [TxTable.free, hlock, reduceCtorEq, false_or, Option.some.injEq,
        decide_eq_true_eq] at hfree
      exact absurd hfree.symm hs

/-- A claim that succeeds is in the session's hand. -/
theorem Stands.claimed {l : List (LogEntry S)} {e : LogEntry S} {t time : DateTime}
    (he : e.Executed exec) (hclaim : claimOf ⟨e.cmd, e.ans⟩ = some (i, t)) :
    Stands i (l ++ [e]) e.after ⟨e.session, t, time⟩ := by
  refine Or.inr ⟨?_, ?_⟩
  · rw [own_append_singleton, if_pos rfl]
    exact ⟨_, _, rfl, by rw [hclaim]; rfl⟩
  · obtain ⟨s', before, cmd, a, after⟩ := e
    obtain ⟨w, rfl, rfl⟩ := claim_of_claimOf hclaim
    obtain ⟨ω, he⟩ := he
    obtain ⟨ev, -, -, -, hwrite⟩ := exec_claim_true he
    have hafter : after.event = before.event.write s' i (some { ev with
      processingStartedAt := some t, attempts := ev.attempts + 1 }) := hwrite
    refine ⟨?_, some { ev with processingStartedAt := some t, attempts := ev.attempts + 1 }, ?_, _,
      rfl, rfl⟩
    · show after.event.lock i = some s'
      rw [hafter]
      simp [TxTable.write]
    · show after.event.pending s' i = _
      rw [hafter]
      simp only [TxTable.write, Function.update_self]

theorem claimed_counted {e : LogEntry S} {t : DateTime} (he : e.Executed exec)
    (hs : e.before.Sequenced) (hclaim : claimOf ⟨e.cmd, e.ans⟩ = some (i, t)) :
    i < e.before.eventCount := by
  obtain ⟨s', before, cmd, a, after⟩ := e
  obtain ⟨w, rfl, rfl⟩ := claim_of_claimOf hclaim
  obtain ⟨ω, he⟩ := he
  obtain ⟨ev, hview, -⟩ := exec_claim_true he
  by_contra hcount
  have hnone : before.event.view s' i = none := (hs i (not_lt.1 hcount) s').view
  rw [hview] at hnone
  cases hnone

/-! ## Runs -/

/-- Every command of the log is one its session may execute. -/
def ClaimsObeyed (stale : ℤ) (l : List (LogEntry S)) : Prop :=
  ∀ l₁ (e : LogEntry S) l₂, l = l₁ ++ e :: l₂ → Claiming stale (own e.session l₁) e.cmd

theorem ClaimsObeyed.take {stale : ℤ} {l l' : List (LogEntry S)} (h : ClaimsObeyed stale (l ++ l')) :
    ClaimsObeyed stale l := by
  intro l₁ e l₂ hl
  exact h l₁ e (l₂ ++ l') (by rw [hl]; simp)

/-- **The compare-and-set over a run.**  Each claim of an event names a time the
    window after the one before it, and the last one stands. -/
theorem claimsOf_apart (i : ℕ) (stale : ℤ) (hst : st.Owned) (hseq : st.Sequenced) :
    ∀ (tl : List (LogEntry S × DateTime)) {st' : Store S}, Trace exec st (tl.map (·.1)) st' →
      ClaimsObeyed stale (tl.map (·.1)) →
        (claimsOf i tl).IsChain (fun c c' => c.at_ + stale ≤ c'.at_) ∧
        ∀ c, (claimsOf i tl).getLast? = some c →
          i < st'.eventCount ∧ Stands i (tl.map (·.1)) st' c := by
  intro tl
  induction tl using List.reverseRecOn with
  | nil =>
    intro st' _ _
    exact ⟨.nil, fun c hc => nomatch hc⟩
  | append_singleton tl x ih =>
    intro st' ht hobeyed
    obtain ⟨e, time⟩ := x
    rw [List.map_append] at ht hobeyed
    obtain ⟨ht', he, rfl⟩ := ht.snoc
    obtain ⟨hchain, hlast⟩ := ih ht' hobeyed.take
    have hspec : Claiming stale (own e.session (tl.map (·.1))) e.cmd := hobeyed _ e [] rfl
    obtain ⟨ω, hω⟩ := id he
    have hinv : e.before.Owned ∧ e.before.Sequenced :=
      ht'.inv (I := fun st => st.Owned ∧ st.Sequenced)
        (fun e' _ ω' hω' hI => ⟨exec_owned hω' hI.1, exec_sequenced hω' hI.2⟩) ⟨hst, hseq⟩
    have hcounts : e.before.eventCount ≤ e.after.eventCount := (exec_event hω).count
    by_cases hclaim : ∃ t, claimOf ⟨e.cmd, e.ans⟩ = some (i, t)
    · obtain ⟨t, hclaim⟩ := hclaim
      have hnew : claimsOf i (tl ++ [(e, time)]) = claimsOf i tl ++ [⟨e.session, t, time⟩] := by
        simp [claimsOf, entryClaim, hclaim]
      rw [hnew, List.map_append]
      constructor
      · refine List.isChain_append.2 ⟨hchain, .singleton _, fun c hc c' hc' => ?_⟩
        obtain rfl := Option.some.inj hc'
        exact (hlast c hc).2.apart he hspec hclaim
      · intro c hc
        rw [List.getLast?_concat] at hc
        cases hc
        exact ⟨lt_of_lt_of_le (claimed_counted he hinv.2 hclaim) hcounts, Stands.claimed he hclaim⟩
    · have hnot : ∀ t, claimOf ⟨e.cmd, e.ans⟩ ≠ some (i, t) := fun t ht => hclaim ⟨t, ht⟩
      have hsame : claimsOf i (tl ++ [(e, time)]) = claimsOf i tl := by
        have hnone : entryClaim i (e, time) = none := by
          unfold entryClaim
          cases hc : claimOf ⟨e.cmd, e.ans⟩ with
          | none => rfl
          | some c =>
            rw [Option.bind_some, if_neg]
            rintro rfl
            exact hnot c.2 hc
        simp [claimsOf, hnone]
      rw [hsame, List.map_append]
      refine ⟨hchain, fun c hc => ?_⟩
      obtain ⟨hcount, hstands⟩ := hlast c hc
      exact ⟨lt_of_lt_of_le hcount hcounts, hstands.step he hinv.1.event hcount hspec hnot⟩

end

section
variable {S : Type} {α : Type}

/-- The log of a run has one entry for each step of the schedule. -/
theorem run_length [DecidableEq S] : ∀ {xs : List (S × Outside)}
    {cfg cfg' : Config Cmd.Ans Exn α S (Store S)}, cfg.run exec xs = some cfg' →
      cfg'.log.length = cfg.log.length + xs.length
  | [], cfg, cfg', h => by
    simp only [Config.run, Option.some.injEq] at h
    rw [h]
    rfl
  | x :: xs, cfg, cfg', h => by
    simp only [Config.run, Option.bind_eq_some_iff] at h
    obtain ⟨cfg₁, h1, h2⟩ := h
    obtain ⟨c, k, r, -, -, rfl⟩ := Config.step_cases h1
    have hlen := run_length h2
    simp only [List.length_append, List.length_cons, List.length_nil] at hlen ⊢
    omega

/-- The times of the claims of an event are times of the log, in its order. -/
theorem claimsOf_times (i : ℕ) : ∀ (tl : List (LogEntry S × DateTime)),
    ((claimsOf i tl).map (·.time)).Sublist (tl.map (·.2)) := by
  intro tl
  induction tl with
  | nil => exact .slnil
  | cons x tl ih =>
    cases hx : entryClaim i x with
    | none =>
      rw [claimsOf, List.filterMap_cons_none hx, List.map_cons]
      exact ih.cons _
    | some c =>
      have htime : c.time = x.2 := by
        unfold entryClaim at hx
        obtain ⟨y, -, hy⟩ := Option.bind_eq_some_iff.1 hx
        split_ifs at hy
        cases hy
        rfl
      rw [claimsOf, List.filterMap_cons_some hx, List.map_cons, List.map_cons, htime]
      exact ih.cons_cons _

/-- Where the times the claims name are apart and no lag is longer than the next,
    the claims are apart. -/
theorem time_apart_of_lag {stale : ℤ} : ∀ {cs : List (Claim S)},
    cs.IsChain (fun c c' => c.at_ + stale ≤ c'.at_) → cs.IsChain (fun c c' => c.lag ≤ c'.lag) →
      cs.IsChain fun c c' => c.time + stale ≤ c'.time := by
  intro cs
  induction cs with
  | nil => exact fun _ _ => .nil
  | cons c cs ih =>
    intro hat hlag
    rw [List.isChain_cons] at hat hlag ⊢
    refine ⟨fun c' hc' => ?_, ih hat.2 hlag.2⟩
    have h₁ := hat.1 c' hc'
    have h₂ := hlag.1 c' hc'
    simp only [Claim.lag] at h₂
    linarith

/-- Consecutive claims are apart, and time does not run back: so any two are. -/
theorem pairwise_apart {stale : ℤ} : ∀ {cs : List (Claim S)},
    cs.IsChain (fun c c' => c.time + stale ≤ c'.time) → (cs.map (·.time)).Pairwise (· ≤ ·) →
      cs.Pairwise fun c c' => c.time + stale ≤ c'.time := by
  intro cs
  induction cs with
  | nil => exact fun _ _ => .nil
  | cons c cs ih =>
    intro hchain htimes
    rw [List.map_cons, List.pairwise_cons] at htimes
    refine List.pairwise_cons.2 ⟨fun c' hc' => ?_, ih (List.isChain_cons.1 hchain).2 htimes.2⟩
    cases cs with
    | nil => cases hc'
    | cons d cs =>
      have hnext : c.time + stale ≤ d.time := (List.isChain_cons.1 hchain).1 d rfl
      rcases List.mem_cons.1 hc' with rfl | hc'
      · exact hnext
      · have hle : d.time ≤ c'.time := by
          have := htimes.2
          rw [List.map_cons, List.pairwise_cons] at this
          exact this.1 _ (List.mem_map_of_mem hc')
        exact le_trans hnext hle

end

/-- **The window separates the claims of an event** in every run of any number of
    passes beside anything that claims nothing, as long as no claim of the event
    is made longer after its pass read the clock than the next one is. -/
theorem claims_apart_of_lag {S : Type} [DecidableEq S] (pyRepr : Exn → String) (stale : ℤ)
    (limit maxAttempts : S → ℕ) (prog : S → Billing Unit)
    (hprog : ∀ s, prog s =
        discard (dbSession (replayUnprocessedEvents pyRepr (limit s) stale (maxAttempts s))) ∨
      (prog s).Uses fun c => c.isClaim = false)
    (st : Store S) (hst : st.Owned) (hseq : st.Sequenced) (xs : List (S × Outside))
    (hclock : (xs.map (·.2.now)).Pairwise (· ≤ ·)) (cfg : Config Cmd.Ans Exn Unit S (Store S))
    (hrun : (start prog st).run exec xs = some cfg) (i : ℕ)
    (hlag : (claimsOf i (timedLog cfg xs)).IsChain fun c c' => c.lag ≤ c'.lag) :
    (claimsOf i (timedLog cfg xs)).Pairwise fun c c' => c.time + stale ≤ c'.time := by
  have hobeys : ∀ s, ((start prog st).prog s).Obeys (Claiming stale) (fun _ _ => True) [] := by
    intro s
    show (prog s).Obeys _ _ _
    rcases hprog s with hpass | huses
    · rw [hpass]
      exact pass_claiming pyRepr (limit s) (maxAttempts s)
    · exact (Uses.claiming huses not_justClaimed_nil).mono fun _ _ _ => trivial
  have hlen : cfg.log.length = (xs.map (·.2.now)).length := by
    rw [List.length_map, run_length hrun]
    exact Nat.zero_add _
  have hfst : (timedLog cfg xs).map (·.1) = cfg.log := List.map_fst_zip hlen.le
  have hsnd : (timedLog cfg xs).map (·.2) = xs.map (·.2.now) := List.map_snd_zip hlen.ge
  obtain ⟨es, hes, htrace⟩ := Config.run_trace hrun
  have hlog : cfg.log = es := hes
  have hobeyed : ClaimsObeyed stale cfg.log := fun l₁ e l₂ hl =>
    Config.run_obeys (fun _ => Claiming stale) (fun _ _ _ => True) rfl hobeys hrun hl
  rw [← hfst] at hobeyed hlog
  rw [← hlog] at htrace
  have hat := (claimsOf_apart i stale hst hseq _ htrace hobeyed).1
  refine pairwise_apart (time_apart_of_lag hat hlag) ?_
  have htimes := claimsOf_times i (timedLog cfg xs)
  rw [hsnd] at htimes
  exact hclock.sublist htimes

/-! ## Two passes -/

/-- An inbox with `n` events. -/
def sampleInbox {S : Type} (n : ℕ) : Store S :=
  { sampleStore (fun p => if p = "alice" then some .created else none) (fun _ => none) [] with
    event := .ofRows fun i => if i < n then some (sampleEvent i) else none
    eventCount := n }

theorem sampleInbox_owned {S : Type} (n : ℕ) : (sampleInbox n : Store S).Owned :=
  ⟨TxTable.owned_ofRows _, TxTable.owned_ofRows _, TxTable.owned_ofRows _, TxTable.owned_ofRows _⟩

theorem sampleInbox_sequenced {S : Type} [DecidableEq S] (n : ℕ) :
    (sampleInbox n : Store S).Sequenced := by
  intro i hi s
  have hi : n ≤ i := hi
  refine ⟨if_neg (by omega), fun r hr => nomatch hr⟩

/-- `k` steps of session `s` at one time, in which Flash knows no subscription. -/
def stepsAt {S : Type} (s : S) (k : ℕ) (now : DateTime) : List (S × Outside) :=
  List.replicate k (s, ⟨fun _ => .ok none, now⟩)

/-- Two passes with a window of `10`, over the schedule `xs`. -/
def twoPasses (n : ℕ) (xs : List (Bool × Outside)) :
    Option (Config Cmd.Ans Exn Unit Bool (Store Bool)) :=
  (start (fun _ => discard (dbSession (replayUnprocessedEvents (fun _ => "") 5 10 5)))
    (sampleInbox n)).run exec xs

/-- The first pass starts at `0` and, its read of Flash taking until then, gets
    to its second event at `100`; the other one starts at `100`. -/
def longBatch : List (Bool × Outside) :=
  stepsAt false 7 0 ++ stepsAt false 9 100 ++ stepsAt true 16 100

/-- **A long batch claims too early.**  Both passes claim the event at the same
    time, and the first has done nothing with it but commit its claim. -/
theorem long_batch_claimed_twice :
    ∃ cfg, twoPasses 2 longBatch = some cfg ∧
      claimsOf 1 (timedLog cfg longBatch) = [⟨false, 0, 100⟩, ⟨true, 100, 100⟩] ∧
      ((own false cfg.log).map claimOf).drop 14 = [some (1, 0), none] ∧
      (cfg.prog false).done = false ∧
      ¬ (claimsOf 1 (timedLog cfg longBatch)).Pairwise fun c c' => c.time + 10 ≤ c'.time := by
  have h : (twoPasses 2 longBatch).map (fun cfg => (claimsOf 1 (timedLog cfg longBatch),
      ((own false cfg.log).map claimOf).drop 14, (cfg.prog false).done)) =
      some ([⟨false, 0, 100⟩, ⟨true, 100, 100⟩], [some (1, 0), none], false) := by
    decide
  obtain ⟨cfg, hcfg, hsum⟩ := Option.map_eq_some_iff.1 h
  simp only [Prod.mk.injEq] at hsum
  obtain ⟨hclaims, hown, hdone⟩ := hsum
  refine ⟨cfg, hcfg, hclaims, hown, hdone, ?_⟩
  rw [hclaims]
  decide

/-- Two passes over one event, the second starting `20` after the first. -/
def shortBatches : List (Bool × Outside) := stepsAt false 5 0 ++ stepsAt true 5 20

theorem claims_apart_of_lag_short :
    ∃ cfg, twoPasses 1 shortBatches = some cfg ∧
      claimsOf 0 (timedLog cfg shortBatches) = [⟨false, 0, 0⟩, ⟨true, 20, 20⟩] ∧
      (claimsOf 0 (timedLog cfg shortBatches)).Pairwise fun c c' => c.time + 10 ≤ c'.time := by
  have h : (twoPasses 1 shortBatches).map (fun cfg => claimsOf 0 (timedLog cfg shortBatches)) =
      some [⟨false, 0, 0⟩, ⟨true, 20, 20⟩] := by
    decide
  obtain ⟨cfg, hcfg, hclaims⟩ := Option.map_eq_some_iff.1 h
  refine ⟨cfg, hcfg, hclaims, ?_⟩
  refine claims_apart_of_lag _ 10 (fun _ => 5) (fun _ => 5) _ (fun _ => Or.inl rfl) _
    (sampleInbox_owned 1) (sampleInbox_sequenced 1) shortBatches (by decide) cfg hcfg 0 ?_
  rw [hclaims]
  decide

end BrainstormServer
