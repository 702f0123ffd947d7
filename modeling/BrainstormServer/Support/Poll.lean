/-
  Polls of the ticket list.

  A poll reads a digest of the user's tickets (the latest `updated_at`, and how many
  they are) and the entitlement, hashes both into an etag, and reads the list only if
  the client does not hold that etag.  `updated_at` is the start of a transaction and a
  row is visible from its commit on, so a change can become visible with an
  `updated_at` older than the latest one.

  * `etagDigest`, `getSupportState`: the tag, and what a poll renders;
  * `etag_inj`: a tag determines the digest and the entitlement;
  * `commitAll_tickets`: the tickets after a commit, row by row;
  * `Timely`: what commits change of existing tickets is later than all that is visible,
    and falls between no digest and its list;
  * `same_etag_same_list`: with timely commits, equal etags mean equal renderings;
  * `stale_not_modified`: a closing that starts first and commits last.
-/
import BrainstormServer.Support.System
import Mathlib.Algebra.Group.Nat.Defs
import Mathlib.Data.Fintype.Basic
import Mathlib.Logic.Equiv.Basic
import Mathlib.Order.Lattice
import Mathlib.Order.MinMax

namespace BrainstormServer

namespace Support

open Conc

/-! ## Tags -/

/-- `n` in decimal, filled with zeros. -/
def zfill : ℕ → ℕ → List Char
  | 0, _ => []
  | width + 1, n => zfill width (n / 10) ++ [Nat.digitChar (n % 10)]

/-- `str` of a naive `datetime`: the microseconds only if there are any. -/
def Timestamp.str (t : Timestamp) : String := String.ofList <|
  zfill 4 t.year ++ '-' :: zfill 2 t.month ++ '-' :: zfill 2 t.day ++ ' ' :: zfill 2 t.hour ++
    ':' :: zfill 2 t.minute ++ ':' :: zfill 2 t.second ++
    if t.microsecond.val = 0 then [] else '.' :: zfill 6 t.microsecond

/-- `str` of a `bool`. -/
def boolStr (b : Bool) : String := if b then "True" else "False"

/-- `etag_digest`; `sha1` is the hexadecimal SHA-1 of a text, `none` the part `None`. -/
def etagDigest (sha1 : String → String) (parts : List (Option String)) : String :=
  "\"" ++ sha1 (":".intercalate (parts.map fun part => part.getD "")) ++ "\""

theorem length_zfill (width n : ℕ) : (zfill width n).length = width := by
  induction width generalizing n with
  | zero => rfl
  | succ width ih => simp [zfill, ih]

theorem digitChar_inj {m n : ℕ} (hm : m < 10) (hn : n < 10) (h : m.digitChar = n.digitChar) : m = n := by
  have hnat := congrArg Char.toNat h
  rw [Nat.toNat_digitChar_of_lt_ten hm, Nat.toNat_digitChar_of_lt_ten hn] at hnat
  omega

theorem zfill_inj {width : ℕ} : ∀ {m n : ℕ}, m < 10 ^ width → n < 10 ^ width →
    zfill width m = zfill width n → m = n := by
  induction width with
  | zero =>
    intro m n hm hn _
    omega
  | succ width ih =>
    intro m n hm hn h
    rw [Nat.pow_succ] at hm hn
    obtain ⟨hfront, hlast⟩ := List.append_inj' h rfl
    have hdiv := ih (by omega) (by omega) hfront
    have hmod := digitChar_inj (Nat.mod_lt m (by omega)) (Nat.mod_lt n (by omega)) (by simpa using hlast)
    omega

/-- Two texts that begin with fields of one width. -/
theorem field_inj {width m n : ℕ} {xs ys : List Char} (hm : m < 10 ^ width) (hn : n < 10 ^ width)
    (h : zfill width m ++ xs = zfill width n ++ ys) : m = n ∧ xs = ys := by
  obtain ⟨hfield, hrest⟩ := List.append_inj h (by rw [length_zfill, length_zfill])
  exact ⟨zfill_inj hm hn hfield, hrest⟩

theorem Timestamp.str_injective : Function.Injective Timestamp.str := by
  rintro ⟨y, mo, d, h, mi, s, u⟩ ⟨y', mo', d', h', mi', s', u'⟩ heq
  have hlist := congrArg String.toList heq
  simp only [Timestamp.str, String.toList_ofList, List.append_assoc, List.cons_append] at hlist
  obtain ⟨hy, hlist⟩ := field_inj (by omega) (by omega) hlist
  obtain ⟨hmo, hlist⟩ := field_inj (by omega) (by omega) (List.tail_eq_of_cons_eq hlist)
  obtain ⟨hd, hlist⟩ := field_inj (by omega) (by omega) (List.tail_eq_of_cons_eq hlist)
  obtain ⟨hh, hlist⟩ := field_inj (by omega) (by omega) (List.tail_eq_of_cons_eq hlist)
  obtain ⟨hmi, hlist⟩ := field_inj (by omega) (by omega) (List.tail_eq_of_cons_eq hlist)
  obtain ⟨hs, hlist⟩ := field_inj (by omega) (by omega) (List.tail_eq_of_cons_eq hlist)
  have hu : u.val = u'.val := by
    split_ifs at hlist with h0 h0' h0'
    · rw [h0, h0']
    · exact zfill_inj (by omega) (by omega) (List.tail_eq_of_cons_eq hlist)
  simp only [Timestamp.mk.injEq, Fin.ext_iff]
  exact ⟨hy, hmo, hd, hh, hmi, hs, hu⟩

theorem toString_inj {m n : ℕ} (h : toString m = toString n) : m = n := by
  have hnum := congrArg (fun s : String => Nat.ofDigitChars 10 s.toList 0) h
  simpa [Nat.toString_eq_ofList_toDigits] using hnum

theorem colon_not_mem_toString (n : ℕ) : ':' ∉ (toString n).toList := by
  intro h
  rw [Nat.toString_eq_ofList_toDigits, String.toList_ofList] at h
  have hdigit := Nat.isDigit_of_mem_toDigits (by decide) (by decide) h
  simp at hdigit

theorem boolStr_inj {b b' : Bool} (h : boolStr b = boolStr b') : b = b' := by
  revert b b'
  decide

theorem colon_not_mem_boolStr (b : Bool) : ':' ∉ (boolStr b).toList := by
  cases b <;> decide

/-! ## What a poll reads -/

structure Params where
  page : ℕ
  size : ℕ

/-- `Page[SupportTicketItem]`. -/
structure Page where
  items : List SupportTicketItem
  total : ℕ
  page : ℕ
  size : ℕ
  pages : ℕ
deriving DecidableEq

structure SupportState where
  supportIncluded : Bool
  tickets : Page
deriving DecidableEq

/-- The user's tickets. -/
def userTickets (db : Db) (pubkey : String) : List SupportTicket :=
  db.tickets.filter fun t => t.pubkey = pubkey

/-- `build_user_support_tickets_stmt`: the newest message first, then the larger id. -/
def buildUserSupportTickets (tickets : List SupportTicket) : List SupportTicket :=
  tickets.insertionSort fun t t' =>
    t'.lastMessageAt < t.lastMessageAt ∨ t'.lastMessageAt = t.lastMessageAt ∧ t'.id ≤ t.id

/-- `select_user_support_digest_on_db`. -/
def selectUserSupportDigest (tickets : List SupportTicket) : Option Timestamp × ℕ :=
  ((tickets.map SupportTicket.updatedAt).max?, tickets.length)

/-- The rows of a page. -/
def pageItems (params : Params) (tickets : List SupportTicket) : List SupportTicketItem :=
  (((buildUserSupportTickets tickets).drop ((params.page - 1) * params.size)).take params.size).map
    SupportTicket.item

/-- `paginate`, from its count and its rows. -/
def mkPage (params : Params) (total : ℕ) (items : List SupportTicketItem) : Page :=
  ⟨items, total, params.page, params.size, (total + params.size - 1) / params.size⟩

/-- A poll that went through: what its tag is made of, and what it renders. -/
structure Poll where
  latest : Option Timestamp
  count : ℕ
  supportIncluded : Bool
  state : SupportState
deriving DecidableEq

/-- The etag of `get_support_state_endpoint`. -/
def Poll.etag (sha1 : String → String) (pubkey : String) (params : Params) (r : Poll) : String :=
  etagDigest sha1 [some pubkey, r.latest.map Timestamp.str, some (toString r.count),
    some (boolStr r.supportIncluded), some (toString params.page), some (toString params.size)]

theorem latestStr_inj {latest latest' : Option Timestamp}
    (h : (latest.map Timestamp.str).getD "" = (latest'.map Timestamp.str).getD "") : latest = latest' := by
  have hne : ∀ t : Timestamp, t.str ≠ "" := by
    intro t heq
    have hnil := congrArg String.toList heq
    simp [Timestamp.str, zfill] at hnil
  cases latest with
  | none =>
    cases latest' with
    | none => rfl
    | some t' => exact absurd h.symm (hne t')
  | some t =>
    cases latest' with
    | none => exact absurd h (hne t)
    | some t' => rw [Timestamp.str_injective h]

/-- A tag determines what it is made of. -/
theorem etag_inj {sha1 : String → String} (hsha : Function.Injective sha1) {pubkey : String} {params : Params}
    {r r' : Poll} (h : r.etag sha1 pubkey params = r'.etag sha1 pubkey params) :
    r.latest = r'.latest ∧ r.count = r'.count ∧ r.supportIncluded = r'.supportIncluded := by
  unfold Poll.etag etagDigest at h
  have hjoined := hsha (String.append_right_inj _ |>.1 (String.append_left_inj _ |>.1 h))
  have hlist := congrArg String.toList hjoined
  simp only [String.toList_intercalate, List.map_cons, List.map_nil, Option.getD_some] at hlist
  have hcolon : ":".toList = [':'] := rfl
  simp only [List.intercalate, List.intersperse, List.flatten_cons, List.flatten_nil, List.append_nil, hcolon,
    List.singleton_append] at hlist
  -- the user and the page are the same on both sides
  have hmid := List.tail_eq_of_cons_eq (List.append_cancel_left hlist)
  have hcut : ∀ latest latest' count count' included included' rest : List Char,
      latest ++ ':' :: (count ++ ':' :: (included ++ rest)) =
        latest' ++ ':' :: (count' ++ ':' :: (included' ++ rest)) →
      (latest ++ ':' :: count) ++ ':' :: included = (latest' ++ ':' :: count') ++ ':' :: included' := by
    intro latest latest' count count' included included' rest heq
    have hall : (latest ++ ':' :: count) ++ ':' :: included ++ rest =
        (latest' ++ ':' :: count') ++ ':' :: included' ++ rest := by
      simpa only [List.append_assoc, List.cons_append] using heq
    exact List.append_cancel_right hall
  obtain ⟨hfront, hincluded⟩ := append_sep_last_inj (colon_not_mem_boolStr _) (colon_not_mem_boolStr _)
    (hcut _ _ _ _ _ _ _ hmid)
  obtain ⟨hlatest, hcount⟩ := append_sep_last_inj (colon_not_mem_toString _) (colon_not_mem_toString _) hfront
  exact ⟨latestStr_inj (String.toList_inj.1 hlatest), toString_inj (String.toList_inj.1 hcount),
    boolStr_inj (String.toList_inj.1 hincluded)⟩

/-! ## Polls among transactions -/

/-- Where a poll stands: its statements, one after the other. -/
inductive PollPhase
  | idle
  | digested (latest : Option Timestamp) (count : ℕ)
  | tagged (latest : Option Timestamp) (count : ℕ) (supportIncluded : Bool)
  | counted (latest : Option Timestamp) (count : ℕ) (supportIncluded : Bool) (total : ℕ)
deriving DecidableEq

/-- The system with the polls of one user, `K` of them at a time. -/
structure PollState (S K : Type) where
  sys : State S
  polls : K → PollPhase
  done : List Poll

inductive PollEvent (S K : Type)
  | support (e : Event S)
  | digest (k : K)
  | entitlement (k : K) (policy : Option Bool)
  | total (k : K)
  | items (k : K)

section
variable {S K : Type} [DecidableEq S] [DecidableEq K] (settings : Settings) (pubkey : String)
  (params : Params)

def PollState.tickets (st : PollState S K) : List SupportTicket := userTickets st.sys.store.db pubkey

/-- `get_support_state_endpoint`, statement by statement: the digest, the entitlement,
    and the two statements of `paginate`. -/
def pollStep : PollEvent S K → PollState S K → Option (PollState S K)
  | .support e, st => (step settings e st.sys).map fun sys => { st with sys := sys }
  | .digest k, st =>
    match st.polls k with
    | .idle =>
      let digest := selectUserSupportDigest (st.tickets pubkey)
      some { st with polls := Function.update st.polls k (.digested digest.1 digest.2) }
    | _ => none
  | .entitlement k policy, st =>
    match st.polls k with
    | .digested latest count =>
      let included := isEntitledToSupport settings pubkey policy
      some { st with polls := Function.update st.polls k (.tagged latest count included) }
    | _ => none
  | .total k, st =>
    match st.polls k with
    | .tagged latest count included =>
      let total := (st.tickets pubkey).length
      some { st with polls := Function.update st.polls k (.counted latest count included total) }
    | _ => none
  | .items k, st =>
    match st.polls k with
    | .counted latest count included total =>
      let page := mkPage params total (pageItems params (st.tickets pubkey))
      some
        { st with
          polls := Function.update st.polls k .idle
          done := ⟨latest, count, included, ⟨included, page⟩⟩ :: st.done }
    | _ => none

/-- The page of some tickets, read at once. -/
def renderPage (tickets : List SupportTicket) : Page :=
  mkPage params tickets.length (pageItems params tickets)

end

/-! ## The tickets after a commit -/

section
variable {S K : Type} [DecidableEq S] [DecidableEq K]

/-- A row as the drafts of `s` leave it. -/
def rewritten (s : S) (ps : List (Pending S)) (t : SupportTicket) : SupportTicket :=
  ((ps.find? fun p => p.session = s ∧ p.id = t.id).map fun p => p.draft.ticket).getD t

/-- The tickets that `s` has filed. -/
def filed (s : S) (ps : List (Pending S)) : List SupportTicket :=
  (ps.filter fun p => p.session = s ∧ p.filing.isSome).map fun p => p.draft.ticket

theorem rewritten_cons_ne {s : S} {p : Pending S} {ps : List (Pending S)} {t : SupportTicket}
    (h : ¬ (p.session = s ∧ p.id = t.id)) : rewritten s (p :: ps) t = rewritten s ps t := by
  unfold rewritten
  rw [List.find?_cons_of_neg (by simpa using h)]

theorem rewritten_cons_eq {s : S} {p : Pending S} {ps : List (Pending S)} {t : SupportTicket}
    (hs : p.session = s) (hid : p.id = t.id) : rewritten s (p :: ps) t = p.draft.ticket := by
  unfold rewritten
  rw [List.find?_cons_of_pos (by simp [hs, hid])]
  rfl

theorem rewritten_self {s : S} {ps : List (Pending S)} {t : SupportTicket} (h : ∀ p ∈ ps, p.id ≠ t.id) :
    rewritten s ps t = t := by
  unfold rewritten
  rw [List.find?_eq_none.2 fun p hp => by simp [h p hp]]
  rfl

/-- **A commit, row by row.** -/
theorem commitAll_tickets (st : Store S) (s : S) : ∀ (ps qs : List (Pending S)) {db : Db},
    Store.Sound { st with db := db, pending := qs ++ ps } →
      (commitAll s ps db).tickets = db.tickets.map (rewritten s ps) ++ filed s ps := by
  intro ps
  induction ps with
  | nil =>
    intro qs db _
    have hself : rewritten s [] = id := funext fun t => rfl
    simp [commitAll, filed, hself]
  | cons p ps ih =>
    intro qs db h
    have hapart := h.apart rfl
    have hfits := h.fits p (by simp)
    rw [commitAll]
    by_cases hs : p.session = s
    · have hother : rewritten s ps p.draft.ticket = p.draft.ticket :=
        rewritten_self fun q hq => hapart q (List.mem_append_right _ hq)
      rw [if_pos hs, ih qs (Store.Sound.settle { st with db := db } h)]
      by_cases hf : p.filing.isSome = true
      · -- a new ticket
        have hfiled : filed s (p :: ps) = p.draft.ticket :: filed s ps := by simp [filed, hs, hf]
        rw [tickets_commit_new (hfits.new hf), List.map_append, List.map_singleton, hother, hfiled,
          List.append_assoc, List.singleton_append]
        congr 1
        refine List.map_congr_left fun t ht => (rewritten_cons_ne fun heq => ?_).symm
        exact hfits.new hf t ht heq.2.symm
      · -- a row that was held
        have hfiled : filed s (p :: ps) = filed s ps := by simp [filed, hf]
        obtain ⟨t, ht, hid, -⟩ := hfits.held (by simpa using hf)
        have hold : (db.tickets.any fun t => t.id = p.draft.ticket.id) = true := any_id.2 ⟨t, ht, hid⟩
        rw [hfiled, Db.commit, if_pos hold, List.map_map]
        congr 1
        refine List.map_congr_left fun x _ => ?_
        simp only [Function.comp_apply]
        by_cases hx : x.id = p.draft.ticket.id
        · rw [if_pos hx, hother, rewritten_cons_eq hs hx.symm]
        · rw [if_neg hx, rewritten_cons_ne fun heq => hx heq.2.symm]
    · have hfiled : filed s (p :: ps) = filed s ps := by simp [filed, hs]
      rw [if_neg hs, ih (qs ++ [p]) (by rwa [List.append_cons] at h), hfiled]
      congr 1
      exact List.map_congr_left fun t _ => (rewritten_cons_ne fun heq => hs heq.1).symm

theorem mem_eq_of_id {db : Db} (hn : (db.tickets.map SupportTicket.id).Nodup) {t t' : SupportTicket}
    (ht : t ∈ db.tickets) (ht' : t' ∈ db.tickets) (hid : t.id = t'.id) : t = t' :=
  List.inj_on_of_nodup_map hn ht ht' hid

/-- A commit leaves a row as it is, or gives it the start of its transaction. -/
theorem rewritten_cases {st : Store S} (h : st.Sound) (s : S) {t : SupportTicket} (ht : t ∈ st.db.tickets) :
    rewritten s st.pending t = t ∨ ∃ p ∈ st.pending, p.session = s ∧ p.filing = none ∧
      rewritten s st.pending t = p.draft.ticket ∧ p.draft.ticket.pubkey = t.pubkey ∧
      p.draft.ticket.updatedAt = p.now ∧ p.draft.ticket ∉ st.db.tickets := by
  unfold rewritten
  cases hfind : st.pending.find? fun p => p.session = s ∧ p.id = t.id with
  | none => exact .inl rfl
  | some p =>
    have hp := List.mem_of_find?_eq_some hfind
    have hpt := List.find?_some hfind
    simp only [decide_eq_true_eq] at hpt
    have hfits := h.fits p hp
    have hf : p.filing = none := by
      by_contra hsome
      exact hfits.new (Option.isSome_iff_ne_none.2 hsome) t ht hpt.2.symm
    obtain ⟨t', ht', hid, hkey, hwhen⟩ := hfits.held hf
    have heq : t' = t := mem_eq_of_id h.nodup ht' ht (hid.trans hpt.2)
    subst heq
    simp only [Option.map_some, Option.getD_some]
    by_cases hsame : p.draft.ticket = t'
    · exact .inl hsame
    · refine .inr ⟨p, hp, hpt.1, hf, rfl, hkey.symm, hwhen.resolve_left hsame, fun hmem => hsame ?_⟩
      exact mem_eq_of_id h.nodup hmem ht' hid.symm

/-- The user's tickets after a commit. -/
theorem userTickets_commit {st : Store S} (h : st.Sound) (s : S) (pubkey : String) :
    userTickets (st.commit s).db pubkey = (userTickets st.db pubkey).map (rewritten s st.pending) ++
      (filed s st.pending).filter fun t => t.pubkey = pubkey := by
  have htickets : (st.commit s).db.tickets = _ := commitAll_tickets st s st.pending [] h
  unfold userTickets
  rw [htickets, List.filter_append, List.filter_map]
  congr 2
  refine List.filter_congr fun t ht => ?_
  simp only [Function.comp_apply]
  rcases rewritten_cases h s ht with heq | ⟨p, -, -, -, heq, hkey, -, -⟩
  · rw [heq]
  · rw [heq, hkey]

/-! ## Digests -/

/-- A digest that another one has left behind. -/
def Behind (d d' : Option Timestamp × ℕ) : Prop :=
  d.2 < d'.2 ∨ d.2 = d'.2 ∧ ∃ b ∈ d'.1, ∀ a ∈ d.1, a < b

theorem Behind.ne {d d' : Option Timestamp × ℕ} (h : Behind d d') : d ≠ d' := by
  rintro rfl
  rcases h with h | ⟨-, b, hb, hlt⟩
  · exact lt_irrefl _ h
  · exact lt_irrefl b (hlt b hb)

theorem Behind.trans {d d' d'' : Option Timestamp × ℕ} (h : Behind d d') (h' : Behind d' d'') : Behind d d'' := by
  rcases h with h | ⟨heq, b, hb, hlt⟩
  · rcases h' with h' | ⟨heq', -⟩
    · exact .inl (h.trans h')
    · exact .inl (heq' ▸ h)
  · rcases h' with h' | ⟨heq', b', hb', hlt'⟩
    · exact .inl (heq ▸ h')
    · exact .inr ⟨heq.trans heq', b', hb', fun a ha => (hlt a ha).trans (hlt' b hb)⟩

instance : Std.LawfulOrderMax Timestamp where
  max_eq_or a b := max_choice a b
  max_le_iff _ _ _ := max_le_iff

/-- One ticket that is later than all that was visible. -/
theorem behind_of_late {tickets tickets' : List SupportTicket} {t : SupportTicket} (ht : t ∈ tickets')
    (hlen : tickets'.length = tickets.length) (hlate : ∀ x ∈ tickets, x.updatedAt < t.updatedAt) :
    Behind (selectUserSupportDigest tickets) (selectUserSupportDigest tickets') := by
  have hmem : t.updatedAt ∈ tickets'.map SupportTicket.updatedAt := List.mem_map_of_mem ht
  obtain ⟨b, hb⟩ := Option.isSome_iff_exists.1 (List.isSome_max?_of_mem hmem)
  refine .inr ⟨hlen.symm, b, hb, fun a ha => ?_⟩
  obtain ⟨x, hx, rfl⟩ := List.mem_map.1 (List.max?_mem ha)
  exact lt_of_lt_of_le (hlate x hx) ((List.max?_eq_some_iff.1 hb).2 _ hmem)

/-- Whether a commit changes what the user sees of the ticket. -/
def Pending.changes (p : Pending S) (db : Db) : Bool := p.filing.isSome ∨ p.draft.ticket ∉ db.tickets

/-- The commit of `s` comes when no poll is between its digest and its list; and where
    it changes a ticket that is there, it started after all the user's tickets were
    last updated. -/
def Timely (pubkey : String) (st : PollState S K) (s : S) : Prop :=
  ∀ p ∈ st.sys.store.pending, p.session = s → p.draft.ticket.pubkey = pubkey →
    p.changes st.sys.store.db = true →
    (∀ k, st.polls k = .idle) ∧ (p.filing = none → ∀ t ∈ st.tickets pubkey, t.updatedAt < p.now)

omit [DecidableEq K] in
/-- **A timely commit moves the digest**, or leaves the tickets as they are. -/
theorem Timely.behind {pubkey : String} {st : PollState S K} {s : S} (ht : Timely pubkey st s)
    (h : st.sys.store.Sound) : userTickets (st.sys.store.commit s).db pubkey = st.tickets pubkey ∨
      (∀ k, st.polls k = .idle) ∧ Behind (selectUserSupportDigest (st.tickets pubkey))
        (selectUserSupportDigest (userTickets (st.sys.store.commit s).db pubkey)) := by
  have hcommit := userTickets_commit h s pubkey
  by_cases hnew : ((filed s st.sys.store.pending).filter fun t => t.pubkey = pubkey) = []
  · rw [hnew, List.append_nil] at hcommit
    by_cases hsame : ∀ t ∈ st.tickets pubkey, rewritten s st.sys.store.pending t = t
    · refine .inl (hcommit.trans ?_)
      exact (List.map_congr_left hsame).trans (List.map_id' _)
    · -- a row that was there has changed
      push Not at hsame
      obtain ⟨t, hmem, hne⟩ := hsame
      obtain ⟨hdb, hkey⟩ := List.mem_filter.1 hmem
      rcases rewritten_cases h s hdb with heq | ⟨p, hp, hs, hf, heq, hpub, hnow, hnot⟩
      · exact absurd heq hne
      · obtain ⟨hidle, hlate⟩ := ht p hp hs (hpub.trans (by simpa using hkey)) (by simp [Pending.changes, hnot])
        refine .inr ⟨hidle, behind_of_late (t := p.draft.ticket) ?_ ?_ ?_⟩
        · rw [hcommit, ← heq]
          exact List.mem_map_of_mem hmem
        · rw [hcommit, List.length_map]
          rfl
        · intro x hx
          rw [hnow]
          exact hlate hf x hx
  · -- a ticket was filed
    obtain ⟨t, hmem⟩ := List.exists_mem_of_ne_nil _ hnew
    obtain ⟨hfiled, hkey⟩ := List.mem_filter.1 hmem
    obtain ⟨p, hp, rfl⟩ := List.mem_map.1 hfiled
    obtain ⟨hp, hsf⟩ := List.mem_filter.1 hp
    simp only [decide_eq_true_eq] at hsf hkey
    refine .inr ⟨(ht p hp hsf.1 hkey (by simp [Pending.changes, hsf.2])).1, .inl ?_⟩
    have hpos := List.length_pos_iff.2 hnew
    simp only [selectUserSupportDigest, hcommit, List.length_append, List.length_map]
    unfold PollState.tickets
    omega

/-! ## Runs -/

/-- What a poll has read is what there is. -/
def PollPhase.Current (tickets : List SupportTicket) : PollPhase → Prop
  | .idle => True
  | .digested latest count => (latest, count) = selectUserSupportDigest tickets
  | .tagged latest count _ => (latest, count) = selectUserSupportDigest tickets
  | .counted latest count _ total => (latest, count) = selectUserSupportDigest tickets ∧ total = tickets.length

/-- The invariant of polls: what is in flight is current, what is done with the current
    digest shows the current page, and equal digests show equal pages. -/
structure Tracked (pubkey : String) (params : Params) (st : PollState S K) : Prop where
  sound : st.sys.store.Sound
  phase : ∀ k, (st.polls k).Current (st.tickets pubkey)
  behind : ∀ r ∈ st.done, (r.latest, r.count) = selectUserSupportDigest (st.tickets pubkey) ∨
    Behind (r.latest, r.count) (selectUserSupportDigest (st.tickets pubkey))
  current : ∀ r ∈ st.done, (r.latest, r.count) = selectUserSupportDigest (st.tickets pubkey) →
    r.state.tickets = renderPage params (st.tickets pubkey)
  agree : ∀ r ∈ st.done, ∀ r' ∈ st.done, (r.latest, r.count) = (r'.latest, r'.count) →
    r.state.tickets = r'.state.tickets
  included : ∀ r ∈ st.done, r.state.supportIncluded = r.supportIncluded

section
variable {settings : Settings} {pubkey : String} {params : Params} {st st' : PollState S K}

/-- Only a commit changes rows. -/
theorem Change.db {st st' : Store S} {e : Event S} (hc : Change settings st e st') :
    st'.db = st.db ∨ ∃ s, e = .commit s ∧ st' = st.commit s := by
  cases hc with
  | none => exact .inl rfl
  | execute s op now utcNow d hbusy hd => exact .inl rfl
  | clear s now t ht hlocked => exact .inl rfl
  | commit s => exact .inr ⟨s, rfl, rfl⟩
  | rollback s => exact .inl rfl

omit [DecidableEq S] [DecidableEq K] in
/-- A transaction, where the user's tickets stay or every digest is left behind. -/
theorem Tracked.support (h : Tracked pubkey params st) {sys : State S} (hsound : sys.store.Sound)
    (hmoved : userTickets sys.store.db pubkey = st.tickets pubkey ∨
      (∀ k, st.polls k = .idle) ∧ Behind (selectUserSupportDigest (st.tickets pubkey))
        (selectUserSupportDigest (userTickets sys.store.db pubkey))) :
    Tracked pubkey params { st with sys := sys } := by
  rcases hmoved with hsame | ⟨hidle, hbehind⟩
  · have htickets : PollState.tickets pubkey { st with sys := sys } = st.tickets pubkey := hsame
    refine ⟨hsound, ?_, ?_, ?_, h.agree, h.included⟩
    · rw [htickets]
      exact h.phase
    · rw [htickets]
      exact h.behind
    · rw [htickets]
      exact h.current
  · have hall : ∀ r ∈ st.done, Behind (r.latest, r.count)
        (selectUserSupportDigest (userTickets sys.store.db pubkey)) := by
      intro r hr
      rcases h.behind r hr with heq | hlt
      · rw [heq]
        exact hbehind
      · exact hlt.trans hbehind
    refine ⟨hsound, fun k => ?_, fun r hr => .inr (hall r hr), fun r hr heq => ?_, h.agree, h.included⟩
    · dsimp only
      rw [hidle k]
      trivial
    · exact absurd heq (hall r hr).ne

omit [DecidableEq S] in
/-- A read of a poll that sees what there is. -/
theorem Tracked.read (h : Tracked pubkey params st) {k : K} {phase : PollPhase}
    (hphase : phase.Current (st.tickets pubkey)) :
    Tracked pubkey params { st with polls := Function.update st.polls k phase } := by
  refine ⟨h.sound, fun k' => ?_, h.behind, h.current, h.agree, h.included⟩
  show (Function.update st.polls k phase k').Current (st.tickets pubkey)
  by_cases hk : k' = k
  · rw [hk, Function.update_self]
    exact hphase
  · rw [Function.update_of_ne hk]
    exact h.phase k'

omit [DecidableEq S] [DecidableEq K] in
/-- The last read of a poll. -/
theorem Tracked.render (h : Tracked pubkey params st) {r : Poll}
    (hdigest : (r.latest, r.count) = selectUserSupportDigest (st.tickets pubkey))
    (hpage : r.state.tickets = renderPage params (st.tickets pubkey))
    (hincluded : r.state.supportIncluded = r.supportIncluded) :
    Tracked pubkey params { st with done := r :: st.done } := by
  refine ⟨h.sound, h.phase, ?_, ?_, ?_, ?_⟩
  · intro x hx
    rcases List.mem_cons.1 hx with rfl | hx
    · exact .inl hdigest
    · exact h.behind x hx
  · intro x hx heq
    rcases List.mem_cons.1 hx with rfl | hx
    · exact hpage
    · exact h.current x hx heq
  · intro x hx y hy heq
    rcases List.mem_cons.1 hx with hx | hx
    · rcases List.mem_cons.1 hy with hy | hy
      · rw [hx, hy]
      · rw [hx] at heq ⊢
        exact hpage.trans (h.current y hy (heq.symm.trans hdigest)).symm
    · rcases List.mem_cons.1 hy with hy | hy
      · rw [hy] at heq ⊢
        exact (h.current x hx (heq.trans hdigest)).trans hpage.symm
      · exact h.agree x hx y hy heq
  · intro x hx
    rcases List.mem_cons.1 hx with rfl | hx
    · exact hincluded
    · exact h.included x hx

/-- **A step keeps the invariant**, if it is no untimely commit. -/
theorem Tracked.step {e : PollEvent S K} (h : Tracked pubkey params st)
    (htimely : ∀ s, e = .support (.commit s) → Timely pubkey st s)
    (hstep : pollStep settings pubkey params e st = some st') : Tracked pubkey params st' := by
  cases e with
  | support e =>
    obtain ⟨sys, hsys, rfl⟩ := Option.map_eq_some_iff.1 hstep
    have hchange := step_change hsys
    refine h.support (hchange.sound h.sound) ?_
    rcases hchange.db with hdb | ⟨s, rfl, heq⟩
    · exact .inl (by rw [hdb]; rfl)
    · rw [heq]
      exact (htimely s rfl).behind h.sound
  | digest k =>
    simp only [pollStep] at hstep
    split at hstep
    · cases hstep
      exact h.read rfl
    · cases hstep
  | entitlement k policy =>
    simp only [pollStep] at hstep
    split at hstep
    · rename_i latest count hk
      cases hstep
      have hphase := h.phase k
      rw [hk] at hphase
      exact h.read hphase
    · cases hstep
  | total k =>
    simp only [pollStep] at hstep
    split at hstep
    · rename_i latest count included hk
      cases hstep
      have hphase := h.phase k
      rw [hk] at hphase
      exact h.read ⟨hphase, rfl⟩
    · cases hstep
  | items k =>
    simp only [pollStep] at hstep
    split at hstep
    · rename_i latest count included total hk
      cases hstep
      have hphase := h.phase k
      rw [hk] at hphase
      obtain ⟨hdigest, rfl⟩ := hphase
      have hread : Tracked pubkey params { st with polls := Function.update st.polls k .idle } :=
        h.read trivial
      exact hread.render hdigest rfl rfl
    · cases hstep

end

end

def pollInitial (S K : Type) : PollState S K := ⟨initial S, fun _ => .idle, []⟩

/-- **Not modified means unchanged, where commits are timely.**  In every interleaving
    of transactions and polls of one user, with fixed page parameters, whose commits are
    all timely: polls with one etag render one list and one entitlement. -/
theorem same_etag_same_list {S K : Type} [DecidableEq S] [DecidableEq K] (settings : Settings) (sha1 : String → String)
    (hsha : Function.Injective sha1) (pubkey : String) (params : Params) (events : List (PollEvent S K))
    (st : PollState S K) (h : Machine.run (pollStep settings pubkey params) events (pollInitial S K) = some st)
    (htimely : ∀ before s after stBefore, events = before ++ .support (.commit s) :: after →
      Machine.run (pollStep settings pubkey params) before (pollInitial S K) = some stBefore →
      Timely pubkey stBefore s) :
    ∀ r ∈ st.done, ∀ r' ∈ st.done, r.etag sha1 pubkey params = r'.etag sha1 pubkey params →
      r.state = r'.state := by
  have htracked : Tracked pubkey params st := by
    refine Machine.run_inv_along (I := Tracked pubkey params) ?_ ?_ h
    · intro before e after st₁ st₂ hevents hrun hstep hI
      refine hI.step (fun s he => ?_) hstep
      exact htimely before s after st₁ (by rw [hevents, he]) hrun
    · exact ⟨sound_initial, fun _ => trivial, fun r hr => (by cases hr), fun r hr => (by cases hr),
        fun r hr => (by cases hr), fun r hr => by cases hr⟩
  intro r hr r' hr' hetag
  obtain ⟨hlatest, hcount, hincluded⟩ := etag_inj hsha hetag
  have hpage := htracked.agree r hr r' hr' (by rw [hlatest, hcount])
  have hsame : r.state.supportIncluded = r'.state.supportIncluded := by
    rw [htracked.included r hr, htracked.included r' hr', hincluded]
  obtain ⟨latest, count, included, ⟨stateIncluded, tickets⟩⟩ := r
  obtain ⟨latest', count', included', ⟨stateIncluded', tickets'⟩⟩ := r'
  exact congrArg₂ SupportState.mk hsame hpage

/-! ## Runs -/

/-- The parameters of a request without any. -/
def firstPage : Params := ⟨1, 50⟩

/-- A poll, with nothing between its statements. -/
def poll (k : Bool) : List (PollEvent ℕ Bool) :=
  [.digest k, .entitlement k (some true), .total k, .items k]

def alicePolls (events : List (PollEvent ℕ Bool)) : Option (PollState ℕ Bool) :=
  Machine.run (pollStep aliceSettings "alice" firstPage) events (pollInitial ℕ Bool)

def bobFiles : Operation := .createTicket "bob" "relay" "it is slow" "bug" none none

/-- A ticket and a poll; the ticket is closed, and another poll; a ticket of somebody else, and
    a third poll. -/
def pollsAroundClosing : List (PollEvent ℕ Bool) :=
  (userRequest 0 aliceFiles 1).map .support ++ poll false ++
  (staffRequest 1 (.closeTicketAsSupport 1 none "staff") 3).map .support ++ poll true ++
  (userRequest 2 bobFiles 5).map .support ++ poll false

/-- SHA-1 on the two texts that are hashed. -/
def pollSha1 : String → String :=
  Equiv.swap "alice:2026-09-01 12:00:01:1:True:1:50" "112f43309f21c8d43d414d6fddffba128ea59ca4" ∘
    Equiv.swap "alice:2026-09-01 12:00:03:1:True:1:50" "86ee700ec8d72034ba6a74cc5ed40d563daf9551"

instance (pubkey : String) (st : PollState ℕ Bool) (s : ℕ) : Decidable (Timely pubkey st s) :=
  inferInstanceAs (Decidable (∀ p ∈ st.sys.store.pending, p.session = s → p.draft.ticket.pubkey = pubkey →
    p.changes st.sys.store.db = true →
    (∀ k, st.polls k = .idle) ∧ (p.filing = none → ∀ t ∈ st.tickets pubkey, t.updatedAt < p.now)))

/-- Whether an event is no commit, or timely. -/
def timelyEvent : PollEvent ℕ Bool → PollState ℕ Bool → Bool
  | .support (.commit s), st => decide (Timely "alice" st s)
  | _, _ => true

/-- The closing changes the list and the tag; the ticket of somebody else changes neither. -/
theorem polls_around_closing : ∃ st r₁ r₂ r₃, alicePolls pollsAroundClosing = some st ∧ st.done = [r₃, r₂, r₁] ∧
    r₁.state ≠ r₂.state ∧ r₁.etag pollSha1 "alice" firstPage ≠ r₂.etag pollSha1 "alice" firstPage ∧
    r₂.etag pollSha1 "alice" firstPage = r₃.etag pollSha1 "alice" firstPage ∧ r₂.state = r₃.state := by
  have hcheck : ((alicePolls pollsAroundClosing).map fun st => st.done.map fun r =>
      (r.latest, r.count, r.supportIncluded, r.state.tickets.items.map (·.status))) =
      some [(some (clock 3), 1, true, [.closed]), (some (clock 3), 1, true, [.closed]),
        (some (clock 1), 1, true, [.«open»])] := by decide
  obtain ⟨st, hrun, hthree⟩ := Option.map_eq_some_iff.1 hcheck
  have halong : Machine.along (pollStep aliceSettings "alice" firstPage) timelyEvent pollsAroundClosing
      (pollInitial ℕ Bool) = true := by decide
  have hinjective : Function.Injective pollSha1 := (Equiv.injective _).comp (Equiv.injective _)
  have hsame := same_etag_same_list aliceSettings pollSha1 hinjective "alice" firstPage
    pollsAroundClosing st hrun fun before s after stBefore hevents hbefore => by
      rw [hevents] at halong
      have hnow : timelyEvent (.support (.commit s)) stBefore = true := Machine.check_of_along halong hbefore
      exact of_decide_eq_true hnow
  obtain ⟨r₃, l₂, hdone₃, h₃, hthree⟩ := List.map_eq_cons_iff.1 hthree
  obtain ⟨r₂, l₁, rfl, h₂, hthree⟩ := List.map_eq_cons_iff.1 hthree
  obtain ⟨r₁, l₀, rfl, h₁, hthree⟩ := List.map_eq_cons_iff.1 hthree
  obtain rfl := List.map_eq_nil_iff.1 hthree
  simp only [Prod.mk.injEq] at h₁ h₂ h₃
  have hetag : r₂.etag pollSha1 "alice" firstPage = r₃.etag pollSha1 "alice" firstPage := by
    simp only [Poll.etag, h₂, h₃]
  refine ⟨st, r₁, r₂, r₃, hrun, hdone₃, fun heq => ?_, fun heq => ?_, hetag, ?_⟩
  · rw [heq, h₂.2.2.2] at h₁
    cases h₁.2.2.2
  · have hlatest := (etag_inj hinjective heq).1
    rw [h₁.1, h₂.1] at hlatest
    cases hlatest
  · exact hsame r₂ (by simp [hdone₃]) r₃ (by simp [hdone₃]) hetag

/-- Two tickets.  The closing of the first starts, that of the second starts and
    commits, a poll, the closing of the first commits, a poll. -/
def lateClosing : List (PollEvent ℕ Bool) :=
  (userRequest 0 aliceFiles 1 ++ userRequest 0 aliceFiles 2 ++
    [Event.start 1 (.closeTicketAsSupport 1 none "staff") (clock 10)] ++
    staffRequest 2 (.closeTicketAsSupport 2 none "staff") 11).map .support ++ poll false ++
  [.support (.execute 1 (clock 12)), .support (.commit 1)] ++ poll true

/-- **Not modified, and yet changed.**  The closing of the first ticket becomes visible
    with an `updated_at` older than the latest: the second poll has the tag of the
    first, and another list. -/
theorem stale_not_modified : ∃ st, alicePolls lateClosing = some st ∧
    ∀ sha1, ¬ ∀ r ∈ st.done, ∀ r' ∈ st.done,
      r.etag sha1 "alice" firstPage = r'.etag sha1 "alice" firstPage → r.state = r'.state := by
  have hcheck : ((alicePolls lateClosing).map fun st => decide (∃ r ∈ st.done, ∃ r' ∈ st.done,
      (r.latest, r.count, r.supportIncluded) = (r'.latest, r'.count, r'.supportIncluded) ∧
        r.state ≠ r'.state)) = some true := by decide
  obtain ⟨st, hrun, hdec⟩ := Option.map_eq_some_iff.1 hcheck
  obtain ⟨r, hr, r', hr', heq, hne⟩ := of_decide_eq_true hdec
  refine ⟨st, hrun, fun sha1 hall => hne (hall r hr r' hr' ?_)⟩
  simp only [Prod.mk.injEq] at heq
  unfold Poll.etag
  rw [heq.1, heq.2.1, heq.2.2]

end Support

end BrainstormServer
