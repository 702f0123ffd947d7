/-
  The follow list of onboarding (`app/services/onboarding_service.py`, `NostrEvent` of
  `app/schemas/nostr_event.py`).

  A new user signs a follow list, and it is written to the graph before the request is answered,
  by the handler of the lists that come from the relay.  That handler takes a list that names
  nobody for a deletion of all follows.  Where Neo4j asks for it the handler is run again, on
  what the attempt before has left behind.

  * `pTagPubkeys_ne_nil`: a list that is let in names somebody;
  * `Tried`: what an attempt leaves behind that is made again;
  * `ingest_whole`: however the attempts end, the caller's follows are never emptied, and a list
    that is answered for has replaced them.
-/
import BrainstormServer.Graph.Canonical
import BrainstormServer.Graph.Lists

namespace BrainstormServer

namespace Graph

open Conc Prog Nostr

/-! ## The request -/

/-- `_tags_well_formed`. -/
def tagsWellFormed (tags : List (List String)) : Bool :=
  tags.all fun tag => tag ≠ [] && (tag.head? ≠ some "p" || tag[1]?.any fun value => IsPubkey value)

/-- `NostrEvent`. -/
structure NostrEvent where
  id : String
  pubkey : Pubkey
  createdAt : ℕ
  kind : ℕ
  tags : List (List String)
  content : String
  sig : String
  id_hex : IsPubkey id
  pubkey_hex : IsPubkey pubkey
  sig_hex : sig.toList.length = 128 ∧ ∀ c ∈ sig.toList, isHexDigit c = true
  tags_well_formed : tagsWellFormed tags = true

/-- `signed_event`, as the handler reads it. -/
def NostrEvent.event (e : NostrEvent) : Event where
  id := e.id
  pubkey := e.pubkey
  kind := e.kind
  createdAt := e.createdAt
  tags := e.tags.map (·.map .str)
  content := e.content

/-- What `nostr_sdk` reads of an event. -/
structure SignedEvent where
  kind : ℕ
  author : Pubkey
  verified : Bool

/-- `KIND_FOLLOW_LIST`. -/
def kindFollowList : ℕ := 3

/-- `follow_count`. -/
def followCount (tags : List (List String)) : ℕ := (tags.filter fun tag => tag.head? = some "p").length

section
variable (fromJson : NostrEvent → Option SignedEvent)

/-- `ingest_follow_list`, up to the write. -/
def checkFollowList (callerPubkey : Pubkey) (e : NostrEvent) : Except HTTPException ℕ :=
  match fromJson e with
  | none => .error ⟨400, "Malformed Nostr event"⟩
  | some signed =>
    if signed.kind ≠ kindFollowList then .error ⟨400, "Event must be a kind-3 follow list"⟩
    else if !signed.verified then .error ⟨401, "Invalid event signature"⟩
    else if signed.author ≠ callerPubkey then .error ⟨403, "Event author does not match the authenticated user"⟩
    else if followCount e.tags = 0 then .error ⟨400, "Follow list must contain at least one follow"⟩
    else .ok (followCount e.tags)

/-- How many commands of an attempt are executed if it is not over before, and whether what the
    next one raises is a `TransientError`. -/
structure Fate where
  commands : ℕ
  transient : Bool

/-- The next command is one of Neo4j; only these raise a `TransientError`. -/
def atNeo4j : Act Unit → Bool
  | .op (.redis _ _) _ => false
  | .op _ _ => true
  | _ => false

/-- `_MAX_WRITE_ATTEMPTS`. -/
def maxWriteAttempts : ℕ := 3

/-- An attempt: what is left of the handler, and the store. -/
def attempt (event : Event) (fate : Fate) (st : Store) : Act Unit × Store :=
  (processEventKind3 event).upTo exec () (List.replicate fate.commands fun _ => none) st

/-- `_write_follows_with_retry`, with so many attempts left: whether it returns, and the store. -/
def writeFollowsWithRetry (event : Event) (fates : ℕ → Fate) : ℕ → Store → Bool × Store
  | 0, st => (false, st)
  | left + 1, st =>
    let (rest, st') := attempt event (fates left) st
    if rest.done then (true, st')
    else if (fates left).transient && atNeo4j rest then writeFollowsWithRetry event fates left st'
    else (false, st')

/-- How a request fails: with an answer of its own, or with what the write has raised. -/
inductive IngestError
  | http (e : HTTPException)
  | raised
  deriving DecidableEq

/-- `ingest_follow_list`. -/
def ingestFollowList (callerPubkey : Pubkey) (e : NostrEvent) (fates : ℕ → Fate) (st : Store) :
    Except IngestError ℕ × Store :=
  match checkFollowList fromJson callerPubkey e with
  | .error err => (.error (.http err), st)
  | .ok count =>
    let (returned, st') := writeFollowsWithRetry e.event fates maxWriteAttempts st
    (if returned then .ok count else .error .raised, st')

end

/-! ## A list that is let in names somebody -/

section
variable {fromJson : NostrEvent → Option SignedEvent} {callerPubkey : Pubkey} {e : NostrEvent} {count : ℕ}

theorem checkFollowList_ok (h : checkFollowList fromJson callerPubkey e = .ok count) :
    (∃ signed, fromJson e = some signed ∧ signed.author = callerPubkey) ∧ count = followCount e.tags ∧
      followCount e.tags ≠ 0 := by
  unfold checkFollowList at h
  split at h
  · cases h
  · rename_i signed hsigned
    split_ifs at h with hkind hverified hauthor hcount
    cases h
    exact ⟨⟨signed, hsigned, not_not.1 hauthor⟩, rfl, hcount⟩

theorem toLower_of_isHexDigit {c : Char} (h : isHexDigit c = true) : c.toLower = c := by
  have hmem : c ∈ "0123456789abcdef".toList := of_decide_eq_true h
  have hall : ("0123456789abcdef".toList.all fun d => decide (d.toLower = d)) = true := rfl
  exact of_decide_eq_true (List.all_eq_true.1 hall c hmem)

theorem lower_of_isPubkey {p : String} (h : IsPubkey p) : lower p = p := by
  rw [← String.toList_inj, lower, String.toList_ofList]
  exact (List.map_congr_left fun c hc => toLower_of_isHexDigit (h.2 c hc)).trans (List.map_id _)

theorem pTagPubkeys_ne_nil (h : followCount e.tags ≠ 0) : pTagPubkeys e.event.tags ≠ [] := by
  obtain ⟨tag, htag⟩ := List.exists_mem_of_length_pos (Nat.pos_of_ne_zero h)
  obtain ⟨hmem, hname⟩ := List.mem_filter.1 htag
  have hwell := List.all_eq_true.1 e.tags_well_formed tag hmem
  have hhead : tag.head? = some "p" := of_decide_eq_true hname
  simp only [hhead, ne_eq, not_true_eq_false, decide_false, Bool.false_or, Bool.and_eq_true, Option.any_eq_true,
    decide_eq_true_eq] at hwell
  obtain ⟨-, value, hvalue, hpubkey⟩ := hwell
  refine List.ne_nil_of_mem (a := value) ?_
  rw [pTagPubkeys, List.mem_eraseDups, List.mem_filter, List.mem_map]
  refine ⟨⟨value, ?_, lower_of_isPubkey hpubkey⟩, hex64Match_iff.2 (Or.inl hpubkey)⟩
  refine List.mem_filterMap.2 ⟨tag.map .str, List.mem_filter.2 ⟨List.mem_map_of_mem hmem, ?_⟩, ?_⟩
  · simp [isNamed, hhead, str?]
  · simp [value?, hvalue, str?]

end

/-! ## Attempts -/

section
variable {event : Event} {st st₁ : Store}

/-- The author's follows are what they were, and so are all others. -/
def Kept (st st₁ : Store) : Prop := ∀ x t, (x, t) ∈ st₁.edges .follows ↔ (x, t) ∈ st.edges .follows

/-- The list has been merged into the author's follows. -/
def Merged (event : Event) (st st₁ : Store) : Prop :=
  ∀ x t, (x, t) ∈ st₁.edges .follows ↔
    (x, t) ∈ st.edges .follows ∨ (x = event.pubkey ∧ t ∈ pTagPubkeys event.tags)

/-- The author's follows are the list. -/
def Listed (event : Event) (st st₁ : Store) : Prop :=
  ∀ x t, (x, t) ∈ st₁.edges .follows ↔
    if x = event.pubkey then t ∈ pTagPubkeys event.tags else (x, t) ∈ st.edges .follows

/-- What an attempt leaves behind that is made again. -/
structure Tried (event : Event) (st st₁ : Store) : Prop where
  edges : Kept st st₁ ∨ Merged event st st₁
  sets : st₁.sets .follows = st.sets .follows

/-- **The follows are never half of something**: nobody else's have changed, and the author's
    are what they were, or these with the list merged into them, or the list. -/
def Whole (event : Event) (st st₁ : Store) : Prop :=
  Kept st st₁ ∨ Merged event st st₁ ∨ Listed event st st₁

/-- The other relations have been left alone. -/
def Apart (st st₁ : Store) : Prop := ∀ r, r ≠ Rel.follows → st₁.edges r = st.edges r ∧ st₁.sets r = st.sets r

theorem Tried.refl : Tried event st st := ⟨Or.inl fun _ _ => Iff.rfl, rfl⟩

/-- A list that is merged again adds nothing. -/
theorem Tried.merge (h : Tried event st st₁) : Merged event st (st₁.setEdges .follows (st₁.edges .follows ++
    ((pTagPubkeys event.tags).filter (· ∉ st₁.targets .follows event.pubkey)).map (event.pubkey, ·))) := by
  intro x t
  rw [setEdges_edges, mem_merge]
  rcases h.edges with hkept | hmerged
  · rw [hkept]
  · rw [hmerged]
    tauto

theorem Tried.whole (h : Tried event st st₁) : Whole event st st₁ := h.edges.imp_right Or.inl

/-- A list that replaces what attempts have left behind replaces what was there before them. -/
theorem Tried.replaced {st₂ : Store} (h : Tried event st st₁)
    (hreplaced : Replaced .follows event.pubkey (pTagPubkeys event.tags) st₁ st₂) :
    Replaced .follows event.pubkey (pTagPubkeys event.tags) st st₂ where
  edges := fun x t => by
    rw [hreplaced.edges]
    split_ifs with hx
    · exact Iff.rfl
    · rcases h.edges with hkept | hmerged
      · exact hkept x t
      · rw [hmerged]
        tauto
  sets := fun x t => by
    rw [hreplaced.sets, Store.Stale, Store.Stale, h.sets]
    split_ifs with hx
    · subst hx
      rcases h.edges with hkept | hmerged
      · rw [hkept]
      · rw [hmerged]
        tauto
    · exact Iff.rfl

/-- Wherever an attempt is stopped, the follows are whole. -/
theorem whole_processList (hnamed : pTagPubkeys event.tags ≠ []) (h : Tried event st st₁) :
    (processList .follows event).Safe exec () (Whole event st) (fun _ => Whole event st) st₁ := by
  unfold processList
  dsimp only
  rw [if_neg hnamed]
  refine ⟨h.whole, fun ω out hout => ?_⟩
  cases hout
  refine ⟨Or.inr (Or.inl h.merge), fun ω out hout => ?_⟩
  cases hout
  -- from the deletion on the edges are those of the list
  generalize hstore : st₁.setEdges .follows _ = merged
  have hmerged : Merged event st merged := hstore ▸ h.merge
  have hwhole : ∀ sets, Whole event st ((merged.setEdges .follows ((merged.edges .follows).filter fun edge =>
      edge.1 ≠ event.pubkey ∨ edge.2 ∈ pTagPubkeys event.tags)).setSets .follows sets) := by
    refine fun sets => Or.inr (Or.inr fun x t => ?_)
    rw [setSets_edges, setEdges_edges, List.mem_filter, decide_eq_true_iff, hmerged]
    split_ifs with hx
    · subst hx
      tauto
    · tauto
  exact safe_updateReverseSets (fun _ _ _ => hwhole _) (hwhole _)

/-- The sets are the last that a handler writes. -/
theorem atNeo4j_execute {cs : List SetCmd} : ∀ {ωs : List Outside} {st : Store},
    atNeo4j ((execute .follows cs).upTo exec () ωs st).1 = false := by
  induction cs with
  | nil =>
    intro ωs st
    rfl
  | cons c cs ih =>
    intro ωs st
    cases ωs with
    | nil => rfl
    | cons ω ωs => exact ih

theorem atNeo4j_updateReverseSets {publisher : Pubkey} {added removed : List Pubkey} {ωs : List Outside} :
    atNeo4j ((updateReverseSets .follows publisher added removed).upTo exec () ωs st).1 = false := by
  unfold updateReverseSets
  split_ifs
  · rfl
  · exact atNeo4j_execute

/-- An attempt that stops at a command of Neo4j has at most merged the list. -/
theorem tried_attempt {fate : Fate} (hnamed : pTagPubkeys event.tags ≠ []) (h : Tried event st st₁)
    (hat : atNeo4j (attempt event fate st₁).1 = true) : Tried event st (attempt event fate st₁).2 := by
  unfold attempt processEventKind3 processList at hat ⊢
  dsimp only at hat ⊢
  rw [if_neg hnamed] at hat ⊢
  match hcommands : fate.commands with
  | 0 =>
    rw [hcommands] at hat
    exact h
  | 1 => exact ⟨Or.inr h.merge, h.sets⟩
  | n + 2 =>
    rw [hcommands] at hat
    exact absurd (hat.symm.trans atNeo4j_updateReverseSets) Bool.noConfusion

theorem apart_attempt {fate : Fate} (h : Apart st st₁) : Apart st (attempt event fate st₁).2 := by
  intro r hr
  have hstop := Safe.upTo (List.replicate fate.commands fun _ => none)
    (@safe_processList_ne .follows r event st₁ hr)
  obtain ⟨hedges, hsets⟩ := hstop.elim
    (J := fun st' => st'.edges r = st₁.edges r ∧ st'.sets r = st₁.sets r) id fun _ h => h
  exact ⟨hedges.trans (h r hr).1, hsets.trans (h r hr).2⟩

theorem replaced_attempt {fate : Fate} (hdone : (attempt event fate st₁).1.done = true) :
    Replaced .follows event.pubkey (pTagPubkeys event.tags) st₁ (attempt event fate st₁).2 := by
  have hstop : Stopped _ _ (attempt event fate st₁).1 (attempt event fate st₁).2 :=
    Safe.upTo (List.replicate fate.commands fun _ => none) safe_processList
  cases hrest : (attempt event fate st₁).1 with
  | ret a =>
    rw [hrest] at hstop
    exact hstop
  | raise e => cases e
  | op c k =>
    rw [hrest] at hdone
    cases hdone

/-- **However the attempts end**, what they leave behind is whole, and if one of them goes through
    the list has replaced what was there before the first. -/
theorem whole_write {fates : ℕ → Fate} {returned : Bool} {st₂ : Store} (hnamed : pTagPubkeys event.tags ≠ []) :
    ∀ {left : ℕ} {st₁ : Store}, Tried event st st₁ → Apart st st₁ →
      writeFollowsWithRetry event fates left st₁ = (returned, st₂) → Whole event st st₂ ∧ Apart st st₂ ∧
        (returned = true → Replaced .follows event.pubkey (pTagPubkeys event.tags) st st₂) := by
  intro left
  induction left with
  | zero =>
    intro st₁ htried hapart h
    cases h
    exact ⟨htried.whole, hapart, fun h => by cases h⟩
  | succ left ih =>
    intro st₁ htried hapart h
    have hwhole : Whole event st (attempt event (fates left) st₁).2 :=
      (Safe.upTo (List.replicate (fates left).commands fun _ => none) (whole_processList hnamed htried)).elim id
        fun _ h => h
    have happly : Apart st (attempt event (fates left) st₁).2 := apart_attempt hapart
    have hreplaced : (attempt event (fates left) st₁).1.done = true → _ := replaced_attempt
    have htry : atNeo4j (attempt event (fates left) st₁).1 = true → _ := tried_attempt hnamed htried
    rw [writeFollowsWithRetry] at h
    rcases hattempt : attempt event (fates left) st₁ with ⟨rest, st'⟩
    rw [hattempt] at h hwhole happly hreplaced htry
    dsimp only at h hwhole happly hreplaced htry
    split_ifs at h with hdone hagain
    · cases h
      exact ⟨hwhole, happly, fun _ => htried.replaced (hreplaced hdone)⟩
    · exact ih (htry (Bool.and_eq_true_iff.1 hagain).2) happly h
    · cases h
      exact ⟨hwhole, happly, fun h => by cases h⟩

end

/-- **Onboarding replaces the follows of the caller, or leaves them whole.**  Whatever the event
    and however the attempts to write it end: nobody else's follows and no other relation are
    touched, the caller's are the old ones, or these with the list merged into them, or the
    list, and where there were follows there are some afterwards.  A request that is refused
    changes nothing.  One that is answered has replaced the follows by the list, which names
    somebody; the reverse sets have the caller for the list, and for whom they had it without
    an edge before. -/
theorem ingest_whole {fromJson : NostrEvent → Option SignedEvent}
    (hauthor : ∀ e signed, fromJson e = some signed → signed.author = e.pubkey) {callerPubkey : Pubkey}
    {e : NostrEvent} {fates : ℕ → Fate} {st st' : Store} {res : Except IngestError ℕ}
    (h : ingestFollowList fromJson callerPubkey e fates st = (res, st')) :
    Whole e.event st st' ∧ Apart st st' ∧
    ((∃ t, (callerPubkey, t) ∈ st.edges .follows) → ∃ t, (callerPubkey, t) ∈ st'.edges .follows) ∧
    (∀ err, res = .error (.http err) → st' = st) ∧ (e.pubkey ≠ callerPubkey → st' = st) ∧
    ∀ count, res = .ok count → count = followCount e.tags ∧ pTagPubkeys e.event.tags ≠ [] ∧
      Replaced .follows callerPubkey (pTagPubkeys e.event.tags) st st' := by
  unfold ingestFollowList at h
  cases hcheck : checkFollowList fromJson callerPubkey e with
  | error err =>
    rw [hcheck] at h
    cases h
    exact ⟨Tried.refl.whole, fun r _ => ⟨rfl, rfl⟩, id, fun _ _ => rfl, fun _ => rfl, fun count h => by cases h⟩
  | ok count =>
    rw [hcheck] at h
    dsimp only at h
    obtain ⟨⟨signed, hsigned, hcaller⟩, hcount, hsome⟩ := checkFollowList_ok hcheck
    have hpubkey : e.event.pubkey = callerPubkey := (hauthor e signed hsigned).symm.trans hcaller
    have hnamed := pTagPubkeys_ne_nil hsome
    rcases hwrite : writeFollowsWithRetry e.event fates maxWriteAttempts st with ⟨returned, st₁⟩
    rw [hwrite] at h
    cases h
    obtain ⟨hwhole, hapart, hreplaced⟩ := whole_write hnamed Tried.refl (fun r _ => ⟨rfl, rfl⟩) hwrite
    rw [hpubkey] at hreplaced
    refine ⟨hwhole, hapart, ?_, fun err herr => ?_, fun hne => absurd hpubkey hne, fun count' hres => ?_⟩
    · rintro ⟨t, ht⟩
      rw [← hpubkey] at ht ⊢
      rcases hwhole with hkept | hmerged | hlisted
      · exact ⟨t, (hkept _ t).2 ht⟩
      · exact ⟨t, (hmerged _ t).2 (Or.inl ht)⟩
      · obtain ⟨named, hmem⟩ := List.exists_mem_of_ne_nil _ hnamed
        exact ⟨named, (hlisted _ named).2 (by rwa [if_pos rfl])⟩
    · split_ifs at herr
      cases herr
    · split_ifs at hres with hreturned
      cases hres
      exact ⟨hcount, hnamed, hreplaced hreturned⟩

theorem hex_replicate (n : ℕ) {c : Char} (h : isHexDigit c = true) :
    (String.ofList (List.replicate n c)).toList.length = n ∧
      ∀ d ∈ (String.ofList (List.replicate n c)).toList, isHexDigit d = true := by
  rw [String.toList_ofList]
  exact ⟨List.length_replicate, fun d hd => (List.eq_of_mem_replicate hd).symm ▸ h⟩

theorem tagsWellFormed_follow {p : Pubkey} (h : IsPubkey p) : tagsWellFormed [["p", p]] = true := by
  simp [tagsWellFormed, h]

/-- A follow list of one account. -/
def sampleSigned : NostrEvent where
  id := sampleKey 'a'
  pubkey := sampleKey 'a'
  createdAt := 0
  kind := 3
  tags := [["p", sampleKey 'b']]
  content := ""
  sig := String.ofList (List.replicate 128 'a')
  id_hex := isPubkey_sampleKey (by decide)
  pubkey_hex := isPubkey_sampleKey (by decide)
  sig_hex := hex_replicate 128 (by decide)
  tags_well_formed := tagsWellFormed_follow (isPubkey_sampleKey (by decide))

/-- It verifies. -/
def sampleFromJson (e : NostrEvent) : Option SignedEvent := some ⟨e.kind, e.pubkey, true⟩

/-- The first attempt comes to the deletion, and the second goes through. -/
def deadlocked : ℕ → Fate := fun left => if left = 2 then ⟨1, true⟩ else ⟨5, false⟩

/-- One follows `c`, and is counted for `d` without an edge. -/
def sampleCounted : Store :=
  (Store.empty.setEdges .follows [(sampleKey 'a', sampleKey 'c')]).setSets .follows
    [(sampleKey 'c', sampleKey 'a'), (sampleKey 'd', sampleKey 'a')]

/-- The first attempt to replace the follows meets a deadlock. -/
def sampleIngested : Except IngestError ℕ × Store :=
  ingestFollowList sampleFromJson (sampleKey 'a') sampleSigned deadlocked sampleCounted

/-- The list has replaced the follow, and `d` is still counted. -/
theorem sampleIngested_whole :
    sampleIngested.1 = .ok 1 ∧
    (∀ t, (sampleKey 'a', t) ∈ sampleIngested.2.edges .follows ↔ t ∈ [sampleKey 'b']) ∧
    (∀ t, (t, sampleKey 'a') ∈ sampleIngested.2.sets .follows ↔ t ∈ [sampleKey 'b', sampleKey 'd']) := by
  have hauthor : ∀ e signed, sampleFromJson e = some signed → signed.author = e.pubkey := fun e signed h => by
    cases h
    rfl
  have hres : sampleIngested.1 = .ok 1 := by decide +kernel
  have hingest : ingestFollowList sampleFromJson (sampleKey 'a') sampleSigned deadlocked sampleCounted =
      (sampleIngested.1, sampleIngested.2) := Prod.mk.eta.symm
  obtain ⟨-, -, -, -, -, hok⟩ := ingest_whole hauthor hingest
  obtain ⟨-, -, hreplaced⟩ := hok 1 hres
  have hlist : pTagPubkeys sampleSigned.event.tags = [sampleKey 'b'] := by decide +kernel
  refine ⟨hres, fun t => ?_, fun t => ?_⟩
  · rw [hreplaced.edges, if_pos rfl, hlist]
  · rw [hreplaced.sets, if_pos rfl, hlist]
    have hstale : sampleCounted.Stale .follows (sampleKey 'a') t ↔ t = sampleKey 'd' := by
      have hne : sampleKey 'd' ≠ sampleKey 'c' := by decide +kernel
      simp only [Store.Stale, sampleCounted, setSets_sets, setSets_edges, setEdges_edges, List.mem_cons,
        List.not_mem_nil, or_false, Prod.mk.injEq, and_true, true_and]
      constructor
      · rintro ⟨rfl | rfl, hnot⟩
        · exact absurd rfl hnot
        · rfl
      · rintro rfl
        exact ⟨Or.inr rfl, hne⟩
    rw [hstale, List.mem_singleton, List.mem_cons, List.mem_singleton]

end Graph

end BrainstormServer
