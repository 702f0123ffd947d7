/-
  Publishing the Assistant's Treasure Map (`publish_assistant_treasure_map` of
  `app/services/self_map_service.py`, with `app/services/assistant_publish.py`,
  `publish_targets` of `app/services/duty_menu_build.py` and `map_groups`, `newest` of
  `app/services/self_map_build.py`).

  A press reads the version at some relays, signs the next one if the newest does not list
  what it should, and sends it to those relays and to all that earlier versions named.  A
  relay keeps the newest version it was sent.  Relays go up and down between the read and the
  send, and one may keep a version and not say so.  Presses of one Assistant come one after
  the other (`_one_press_at_a_time`).

  * `Landed`: what a press that succeeds leaves behind at the relays that answered it;
  * `reader_finds_target`: a reader of some of them, one of which is not reported, finds what the
    press should list;
  * `ta_relay_current`: while the relay of the Trusted Assertions is up it holds the newest
    version of all, and that lists what the last press that succeeded should list.
-/
import BrainstormServer.Conc.Newest
import BrainstormServer.SelfMap.Entries
import BrainstormServer.SelfMap.Upkeep
import Mathlib.Data.Prod.Lex
import Mathlib.Data.String.Basic

namespace BrainstormServer

namespace SelfMap

open Conc.Newest Nostr

/-! ## The reader's Map -/

/-- `event.get("kind") == SELF_MAP_KIND`. -/
def isSelfMapKind : PyValue → Bool
  | .int n => n = 10040
  | .float x => x == 10040
  | _ => false

/-- `str(event.get("pubkey") or "").lower()`, of a string. -/
def pubkeyOf (event : PyValue) : String := lower ((str? (dictGet event.asDict "pubkey")).getD "")

/-- `_read_reader_map`, of what the relay answered. -/
def readReaderMap (userPubkey : Pubkey) (event : PyValue) : PyValue :=
  if isSelfMapKind (dictGet event.asDict "kind") ∧ pubkeyOf event = lower userPubkey then event else .none

/-- `HEX64.fullmatch`, in either case. -/
def isHex64 (s : String) : Bool := s.toList.length = 64 && s.toList.all fun c => isHexDigit c.toLower

/-- A tag of a Map: its provider is added to the group of its key. -/
def addProvider (groups : List Group) : PyValue → List Group
  | .list xs =>
    match xs[1]?.bind str? with
    | none => groups
    | some provider =>
      match hkey : (xs[0]?.bind str?).bind parseKey with
      | none => groups
      | some key =>
        if ¬ isHex64 provider then groups
        else if groups.any (·.key.norm = key.norm) then
          groups.map fun g =>
            if g.key.norm = key.norm then { g with providers := insert (lower provider) g.providers } else g
        else groups ++ [⟨key, {lower provider}, (Option.bind_eq_some_iff.1 hkey).imp fun _ h => h.2⟩]
  | _ => groups

/-- `map_groups`. -/
def mapGroups (event : PyValue) : List Group := (tagsOf event).foldl addProvider []

/-- `MAX_MAP_KEYS`. -/
def maxMapKeys : ℕ := 64

/-! ## Relays -/

/-- The settings that a press reads. -/
structure PressSettings extends Settings where
  nostrUploadTaEventsRelay : String

/-- `KIND_0_PUBLISH_RELAYS`. -/
def kind0PublishRelays : List String :=
  ["wss://relay.damus.io", "wss://relay.primal.net", "wss://nos.lol", "wss://relay.nostr.band"]

/-- `RELAY_URL.fullmatch`, which takes a long `s` for an `s`. -/
def isRelayUrl (s : String) : Bool :=
  match s.toList with
  | w :: s₁ :: rest =>
    let tail := match rest with
      | c :: rest' => if c.toLower = 's' ∨ c = 'ſ' then rest' else rest
      | [] => []
    w.toLower = 'w' && (s₁.toLower = 's' || s₁ = 'ſ') && tail.take 3 = "://".toList && 3 < tail.length &&
      (tail.drop 3).all fun c => !Nsec.isSpace c
  | _ => false

/-- `RelayTarget`. -/
structure RelayTarget where
  url : String
  writeUrl : String

section
variable (lib : UrlLib) (settings : PressSettings)

/-- `assistant_relay_list`. -/
def assistantRelayList : List String :=
  (settings.nostrUploadTaEventsRelayPublicUrl :: settings.trustedListRelay :: kind0PublishRelays).foldl
    (fun relays relay => if relay ≠ "" ∧ relay ∉ relays then relays ++ [relay] else relays) []

/-- A relay is listed if it is one, and the first of its key. -/
def addRelay (out : List String) (url : String) : List String :=
  if isRelayUrl (stripped url) ∧ relayKey lib url ∉ out.map (relayKey lib) then out ++ [stripped url] else out

/-- `self_map_relays`. -/
def selfMapRelays (outbox : List String) (shouldSay : List (String × String)) (hints : List String) : List String :=
  (outbox ++ shouldSay.map Prod.snd ++ hints).foldl (addRelay lib) []

/-- `self_entry_relays`. -/
def selfEntryRelays (events : List PyValue) (author : Pubkey) : List String :=
  events.flatMap fun event => ((readSelfEntries lib event author).map Prod.snd).filter isRelayUrl

/-- `write_url`. -/
def writeUrl (url : String) : String :=
  if relayKey lib url = relayKey lib settings.nostrUploadTaEventsRelayPublicUrl then settings.nostrUploadTaEventsRelay
  else url

/-- How a relay is told where it is written. -/
def RelayTarget.key (target : RelayTarget) : String := relayKey lib target.writeUrl

/-- A target is added if neither of its addresses is one of an earlier target. -/
def addTarget (targets : List RelayTarget) (url : String) : List RelayTarget :=
  if url = "" then targets
  else
    let target : RelayTarget := ⟨url, writeUrl lib settings url⟩
    let seen := targets.flatMap fun t => [relayKey lib t.url, t.key lib]
    if relayKey lib target.url ∈ seen ∨ target.key lib ∈ seen then targets else targets ++ [target]

/-- `publish_targets`, of the groups one after the other. -/
def publishTargets (urls : List String) : List RelayTarget := urls.foldl (addTarget lib settings) []

/-- `_writer_relays`. -/
def writerRelays (listed : List (String × String)) : List String :=
  selfMapRelays lib (assistantRelayList settings) listed []

/-! ## Versions -/

/-- `int(event.get("created_at") or 0)`, of a number. -/
def createdAtOf (event : PyValue) : ℤ :=
  match dictGet event.asDict "created_at" with
  | .int n => n
  | _ => 0

/-- `str(event.get("id") or "")`, of a string. -/
def idOf (event : PyValue) : String := (str? (dictGet event.asDict "id")).getD ""

/-- A pair, compared from the left. -/
def Age : Type := ℤ ×ₗ String

instance : LinearOrder Age := @Prod.Lex.instLinearOrder ℤ String Int.instLinearOrder _

/-- The `key` of `newest`: the lesser is the newer. -/
def ageKey (event : PyValue) : Age := toLex (-createdAtOf event, idOf event)

/-- `newest`. -/
def newest (events : List PyValue) : Option PyValue := events.argmin ageKey

/-- `menu_created_at`. -/
def menuCreatedAt (now : ℤ) (earlier : List PyValue) : ℤ :=
  max now ((earlier.map createdAtOf).max?.getD 0 + 1)

/-- `nostr_sdk`: the event it signs, `none` if it raises, and whether it accepts one. -/
structure Sdk where
  sign : Pubkey → ℤ → List (List String) → Option PyValue
  verify : PyValue → Bool

/-- `is_own`. -/
def isOwn (sdk : Sdk) (event : PyValue) (author : Pubkey) : Bool :=
  isSelfMapKind (dictGet event.asDict "kind") && pubkeyOf event = lower author && sdk.verify event

/-- The tags of an event, if all are lists of strings. -/
def plainTags (event : PyValue) : Option (List (List String)) :=
  (tagsOf event).mapM fun tag =>
    match tag with
    | .list xs => xs.mapM str?
    | _ => none

end

/-! ## A press -/

/-- What each relay holds for the Assistant, and `treasure_map_on` of the caller's row. -/
structure World where
  held : String → Option PyValue
  treasureMapOn : Bool

/-- `_save_choice`. -/
def saveChoice (on : Bool) (w : World) : World := { w with treasureMapOn := on }

/-- What comes from outside during a press. -/
structure Turn where
  on : Bool
  /-- the answer to the query for the reader's Map; `none` if it is not read -/
  readerMap : Option PyValue
  /-- `none` if the follow count is not read in time -/
  upkeep : Option ScoresUpkeep
  now : ℤ
  /-- the relays that answer the read, by their keys, that connect for the send, that keep the
      version, and that say so -/
  answers : String → Bool
  connects : String → Bool
  keeps : String → Bool
  accepts : String → Bool
  refused : String → Option String

inductive PressError
  | mapUnread
  | tooBig
  | upkeepUnread
  /-- the `ValueError` of the offer -/
  | valueError
  /-- no relay answered the read -/
  | versionsUnread
  /-- the version did not pass its own check -/
  | failedCheck
  /-- no relay took the version -/
  | reachedNone
  deriving DecidableEq

/-- `AssistantRelayResult`. -/
structure RelayResult where
  url : String
  ok : Bool
  message : Option String
  deriving DecidableEq

/-- `PublishedAssistantTreasureMap`. -/
structure Published where
  on : Bool
  published : Bool
  event : Option PyValue
  relays : List RelayResult

section
variable (lib : UrlLib) (settings : PressSettings) (sdk : Sdk) (who userPubkey : Pubkey) (turn : Turn)

/-- What a press should list, `target` of `publish_assistant_treasure_map`. -/
def targetOf : Except PressError (List (String × String)) :=
  match if turn.on then turn.readerMap.map (readReaderMap userPubkey) else some .none with
  | none => .error .mapUnread
  | some mapEvent =>
    let groups := mapGroups mapEvent
    if maxMapKeys < groups.length then .error .tooBig
    else
      match if asksForScores groups who then turn.upkeep else some ⟨.notScheduled, none⟩ with
      | none => .error .upkeepUnread
      | some upkeep =>
        match evaluateSelfMap groups (offerRows settings.toSettings who) who upkeep with
        | none => .error .valueError
        | some check => .ok (if turn.on then check.shouldSay else [])

/-- `read_newest`: what each relay that answered holds, if it is the Assistant's own. -/
def readNewest (targets : List RelayTarget) (w : World) : List (String × Option PyValue) :=
  (targets.filter fun t => turn.answers (t.key lib)).map fun t =>
    (t.key lib, (w.held (t.key lib)).filter (isOwn sdk · who))

/-- `_missing`. -/
def missing (targets : List RelayTarget) (held : List (String × Option PyValue)) (latest : PyValue) :
    List RelayTarget :=
  targets.filter fun t =>
    (held.lookup (t.key lib)).any fun event => (event.map idOf) ≠ some (idOf latest)

/-- `relay_report`, of one target. -/
def relayResult (t : RelayTarget) : RelayResult :=
  if turn.connects (t.key lib) ∧ turn.accepts (t.key lib) then ⟨t.url, true, none⟩
  else if ¬ turn.connects (t.key lib) then ⟨t.url, false, some "couldn't connect"⟩
  else ⟨t.url, false, some (((turn.refused (t.key lib)).filter (· ≠ "")).getD "not sent")⟩

/-- The relays that an event comes to: one that accepts it, and one that keeps it without
    saying so. -/
def comesTo (targets : List RelayTarget) (k : String) : Bool :=
  decide (k ∈ targets.map (RelayTarget.key lib)) && turn.connects k && (turn.accepts k || turn.keeps k)

/-- `send_to`: the report, and what the relays hold then. -/
def sendTo (event : PyValue) (targets : List RelayTarget) (w : World) : List RelayResult × World :=
  (targets.map (relayResult lib turn), { w with held := spread ageKey (comesTo lib turn targets) event w.held })

/-- `sign_checked`. -/
def signChecked (tags : List (List String)) (createdAt : ℤ) (check : PyValue → Bool) : Option PyValue :=
  (sdk.sign who createdAt (tags ++ [clientTag])).filter fun signed =>
    sdk.verify signed && plainTags signed = some (tags ++ [clientTag]) && check signed

/-- `publish_assistant_treasure_map`, once it is known what to list. -/
def publishListed (target : List (String × String)) (w : World) : Except PressError Published × World :=
  let relays := writerRelays lib settings target
  let read := publishTargets lib settings relays
  let held := readNewest lib sdk who turn read w
  if held = [] then (.error .versionsUnread, w)
  else
    let versions := held.filterMap Prod.snd
    let latest := newest versions
    if nothingToChange lib (latest.getD .none) who target then
      match latest with
      | none => (.ok ⟨turn.on, false, none, []⟩, saveChoice turn.on w)
      | some latest =>
        let missing := missing lib read held latest
        if missing = [] then (.ok ⟨turn.on, false, none, []⟩, saveChoice turn.on w)
        else
          let sent := sendTo lib turn latest missing w
          (.ok ⟨turn.on, true, some latest, sent.1⟩, saveChoice turn.on sent.2)
    else
      match signChecked sdk who (selfMapTags who target) (menuCreatedAt turn.now versions)
          fun signed => sameSelfEntries lib (readSelfEntries lib signed who) target with
      | none => (.error .failedCheck, w)
      | some signed =>
        let targets := publishTargets lib settings (relays ++ selfEntryRelays lib versions who)
        let sent := sendTo lib turn signed targets w
        if sent.1.any (·.ok) then
          (.ok ⟨turn.on, true, some signed, sent.1⟩, saveChoice turn.on sent.2)
        else (.error .reachedNone, sent.2)

/-- `publish_assistant_treasure_map`. -/
def publishAssistantTreasureMap (w : World) : Except PressError Published × World :=
  match targetOf settings who userPubkey turn with
  | .error e => (.error e, w)
  | .ok target => publishListed lib settings sdk who turn target w

/-- A press, and the last one that succeeded. -/
def press (s : World × Option Turn) (turn : Turn) : World × Option Turn :=
  match publishAssistantTreasureMap lib settings sdk who userPubkey turn s.1 with
  | (.ok _, w) => (w, some turn)
  | (.error _, w) => (w, s.2)

theorem press_of_ok {last : Option Turn} {turn : Turn} {w w' : World} {a : Published}
    (h : publishAssistantTreasureMap lib settings sdk who userPubkey turn w = (.ok a, w')) :
    press lib settings sdk who userPubkey (w, last) turn = (w', some turn) := by
  rw [press, h]

/-- Presses one after the other. -/
def presses (turns : List Turn) (w : World) : World × Option Turn :=
  turns.foldl (press lib settings sdk who userPubkey) (w, none)

/-! ## What `nostr_sdk` does -/

/-- An event is signed by its author at the time it is given, and its id is that of its
    contents. -/
structure Sdk.Lawful : Prop where
  signed : ∀ {author : Pubkey} {createdAt : ℤ} {tags : List (List String)} {event : PyValue},
    sdk.sign author createdAt tags = some event → createdAtOf event = createdAt ∧
      isSelfMapKind (dictGet event.asDict "kind") = true ∧ pubkeyOf event = lower author
  contents : ∀ {event event' : PyValue}, sdk.verify event = true → sdk.verify event' = true →
    idOf event = idOf event' → tagsOf event = tagsOf event' ∧ createdAtOf event = createdAtOf event'

/-- The relays hold nothing but versions of the Assistant. -/
def OwnOnly (w : World) : Prop := ∀ k e, w.held k = some e → isOwn sdk e who = true

variable {lib settings sdk who userPubkey turn}
variable {w w' : World} {target : List (String × String)} {e e' : PyValue} {targets : List RelayTarget}

theorem verify_of_own (h : isOwn sdk e who = true) : sdk.verify e = true := (Bool.and_eq_true_iff.1 h).2

/-- Versions of one age are one version. -/
theorem nothingToChange_of_ageKey (hsdk : sdk.Lawful) (he : isOwn sdk e who = true) (he' : isOwn sdk e' who = true)
    (h : ageKey e = ageKey e') : nothingToChange lib e who target = nothingToChange lib e' who target := by
  have hid : idOf e = idOf e' := congrArg (fun x => (ofLex x).2) h
  have htags := (hsdk.contents (verify_of_own he) (verify_of_own he') hid).1
  rw [nothingToChange, nothingToChange, readSelfEntries, readSelfEntries, htags]

theorem ageKey_eq_of_id (hsdk : sdk.Lawful) (he : isOwn sdk e who = true) (he' : isOwn sdk e' who = true)
    (h : idOf e = idOf e') : ageKey e = ageKey e' := by
  rw [ageKey, ageKey, h, (hsdk.contents (verify_of_own he) (verify_of_own he') h).2]

/-! ## Relays and versions -/

theorem prefix_foldl {α β : Type} {step : List α → β → List α} (h : ∀ out b, out <+: step out b) {l : List β} :
    ∀ {out : List α}, out <+: l.foldl step out := by
  induction l with
  | nil => exact List.prefix_refl _
  | cons b l ih => exact (h _ b).trans ih

theorem prefix_addRelay (out : List String) (url : String) : out <+: addRelay lib out url := by
  unfold addRelay
  split_ifs
  · exact List.prefix_append _ _
  · exact List.prefix_refl _

theorem prefix_addTarget (targets : List RelayTarget) (url : String) :
    targets <+: addTarget lib settings targets url := by
  unfold addTarget
  split_ifs
  · exact List.prefix_refl _
  · dsimp only
    split_ifs
    · exact List.prefix_refl _
    · exact List.prefix_append _ _

/-- The targets of more relays. -/
theorem publishTargets_subset (relays more : List String) :
    publishTargets lib settings relays ⊆ publishTargets lib settings (relays ++ more) := by
  unfold publishTargets
  rw [List.foldl_append]
  exact (prefix_foldl prefix_addTarget).subset

/-- How the relay of the Trusted Assertions is told. -/
abbrev taKey (lib : UrlLib) (settings : PressSettings) : String := relayKey lib settings.nostrUploadTaEventsRelay

variable (lib settings) in
/-- It is the first target. -/
theorem publishTargets_head (hurl : isRelayUrl (stripped settings.nostrUploadTaEventsRelayPublicUrl) = true)
    (listed : List (String × String)) : ∃ t rest, publishTargets lib settings (writerRelays lib settings listed) = t :: rest ∧
      t.key lib = taKey lib settings := by
  have hne : stripped settings.nostrUploadTaEventsRelayPublicUrl ≠ "" := fun h => by
    rw [h] at hurl
    cases hurl
  have hne' : settings.nostrUploadTaEventsRelayPublicUrl ≠ "" := fun h => hne (by rw [h]; rfl)
  obtain ⟨outbox, houtbox⟩ : [settings.nostrUploadTaEventsRelayPublicUrl] <+: assistantRelayList settings := by
    rw [assistantRelayList, List.foldl_cons, if_pos ⟨hne', List.not_mem_nil⟩]
    refine prefix_foldl fun out url => ?_
    split_ifs
    · exact List.prefix_append _ _
    · exact List.prefix_refl _
  obtain ⟨relays, hrelays⟩ : [stripped settings.nostrUploadTaEventsRelayPublicUrl] <+: writerRelays lib settings listed := by
    have hfirst : addRelay lib [] settings.nostrUploadTaEventsRelayPublicUrl =
        [stripped settings.nostrUploadTaEventsRelayPublicUrl] := if_pos ⟨hurl, List.not_mem_nil⟩
    rw [writerRelays, selfMapRelays, ← houtbox, List.append_assoc, List.append_assoc, List.singleton_append,
      List.foldl_cons, hfirst]
    exact prefix_foldl prefix_addRelay
  obtain ⟨rest, hrest⟩ : [⟨stripped settings.nostrUploadTaEventsRelayPublicUrl, settings.nostrUploadTaEventsRelay⟩] <+:
      publishTargets lib settings (writerRelays lib settings listed) := by
    have hfirst : addTarget lib settings [] (stripped settings.nostrUploadTaEventsRelayPublicUrl) =
        [⟨stripped settings.nostrUploadTaEventsRelayPublicUrl, settings.nostrUploadTaEventsRelay⟩] := by
      simp [addTarget, hne, writeUrl, relayKey_stripped]
    rw [publishTargets, ← hrelays, List.singleton_append, List.foldl_cons, hfirst]
    exact prefix_foldl prefix_addTarget
  exact ⟨_, rest, hrest.symm, rfl⟩

theorem lookup_map_self {α κ β : Type} [BEq κ] [LawfulBEq κ] {key : α → κ} {f : κ → β} {l : List α} {a : α} (ha : a ∈ l) :
    (l.map fun b => (key b, f (key b))).lookup (key a) = some (f (key a)) := by
  induction l with
  | nil => cases ha
  | cons b l ih =>
    rw [List.map_cons, List.lookup_cons]
    split
    · rename_i heq
      rw [eq_of_beq heq]
    · rename_i hne
      refine ih ((List.mem_cons.1 ha).resolve_left fun hab => ?_)
      rw [hab, beq_self_eq_true] at hne
      cases hne

theorem filter_isOwn (hown : OwnOnly sdk who w) (k : String) : (w.held k).filter (isOwn sdk · who) = w.held k := by
  cases hk : w.held k with
  | none => rfl
  | some e => exact if_pos (hown k e hk)

theorem lookup_readNewest (hown : OwnOnly sdk who w) {t : RelayTarget} (ht : t ∈ targets)
    (hanswers : turn.answers (t.key lib) = true) :
    (readNewest lib sdk who turn targets w).lookup (t.key lib) = some (w.held (t.key lib)) := by
  rw [← filter_isOwn hown]
  exact lookup_map_self (f := fun k => (w.held k).filter (isOwn sdk · who)) (List.mem_filter.2 ⟨ht, hanswers⟩)

/-- The keys of the targets that answer. -/
abbrev answering (lib : UrlLib) (turn : Turn) (targets : List RelayTarget) : List String :=
  (targets.filter fun t => turn.answers (t.key lib)).map (RelayTarget.key lib)

/-- What is read is what they hold. -/
theorem versions_readNewest (hown : OwnOnly sdk who w) :
    (readNewest lib sdk who turn targets w).filterMap Prod.snd = (answering lib turn targets).filterMap w.held := by
  unfold readNewest
  rw [List.filterMap_map, List.filterMap_map]
  exact List.filterMap_congr fun t _ => filter_isOwn hown _

theorem mem_answering {t : RelayTarget} (ht : t ∈ targets) (hanswers : turn.answers (t.key lib) = true) :
    t.key lib ∈ answering lib turn targets :=
  List.mem_map_of_mem (List.mem_filter.2 ⟨ht, hanswers⟩)

theorem lt_menuCreatedAt (now : ℤ) {versions : List PyValue} (h : e ∈ versions) :
    createdAtOf e < menuCreatedAt now versions := by
  have hmem := List.mem_map_of_mem (f := createdAtOf) h
  cases hmax : (versions.map createdAtOf).max? with
  | none =>
    rw [List.max?_eq_none_iff.1 hmax] at hmem
    cases hmem
  | some m =>
    have hle := (List.max?_eq_some_iff.1 hmax).2 _ hmem
    have hnext : m + 1 ≤ menuCreatedAt now versions := by
      rw [menuCreatedAt, hmax]
      exact le_max_right _ _
    omega

/-! ## Sending -/

theorem ok_relayResult {t : RelayTarget} (h : (relayResult lib turn t).ok = true) :
    turn.connects (t.key lib) = true ∧ turn.accepts (t.key lib) = true := by
  unfold relayResult at h
  split_ifs at h with htaken
  exact htaken

variable (e w) in
theorem report_sendTo : (sendTo lib turn e targets w).1 = targets.map (relayResult lib turn) := rfl

theorem OwnOnly.saveChoice {on : Bool} (h : OwnOnly sdk who w) : OwnOnly sdk who (saveChoice on w) := h

theorem ownOnly_sendTo (hown : OwnOnly sdk who w) (he : isOwn sdk e who = true) :
    OwnOnly sdk who (sendTo lib turn e targets w).2 := by
  intro k u hu
  obtain hnew | hold := spread_cases ageKey (comesTo lib turn targets) e w.held k
  · cases hnew.symm.trans hu
    exact he
  · exact hown k u (hold.symm.trans hu)

theorem comesTo_of_mem {t : RelayTarget} (ht : t ∈ targets) (hconnects : turn.connects (t.key lib) = true)
    (haccepts : turn.accepts (t.key lib) = true) : comesTo lib turn targets (t.key lib) = true := by
  simp [comesTo, List.mem_map_of_mem (f := RelayTarget.key lib) ht, hconnects, haccepts]

/-- A target that accepts the event holds it, or a newer one. -/
theorem held_sendTo {t : RelayTarget} (ht : t ∈ targets) (hconnects : turn.connects (t.key lib) = true)
    (haccepts : turn.accepts (t.key lib) = true) :
    ∃ u, (sendTo lib turn e targets w).2.held (t.key lib) = some u ∧ ageKey u ≤ ageKey e := by
  obtain ⟨u, hu, hle, -⟩ := le_keepNewest ageKey e (w.held (t.key lib))
  refine ⟨u, ?_, hle⟩
  rw [← hu]
  exact if_pos (comesTo_of_mem ht hconnects haccepts)

/-- What a press that succeeds leaves behind: the version `v`, if there is one, lists what it
    should, no relay that answered holds a newer one, and one that was not sent it, or took it,
    holds none older. -/
structure Landed (lib : UrlLib) (sdk : Sdk) (who : Pubkey) (turn : Turn) (target : List (String × String))
    (read sent : List RelayTarget) (v : Option PyValue) (w' : World) : Prop where
  saved : w'.treasureMapOn = turn.on
  own : OwnOnly sdk who w'
  ownVersion : ∀ e, v = some e → isOwn sdk e who = true
  lists : nothingToChange lib (v.getD .none) who target = true
  newest : ∀ t ∈ read, turn.answers (t.key lib) = true → ∀ u, w'.held (t.key lib) = some u →
    ∃ e, v = some e ∧ ageKey e ≤ ageKey u
  taken : ∀ t ∈ read, turn.answers (t.key lib) = true →
    (t ∈ sent → turn.connects (t.key lib) = true ∧ turn.accepts (t.key lib) = true) →
    ∀ e, v = some e → ∃ u, w'.held (t.key lib) = some u ∧ ageKey u ≤ ageKey e

/-- **A reader finds what the press should list**, at any relays that answered the read, if one
    of them was not sent the version or took it. -/
theorem Landed.finds {read sent : List RelayTarget} {v : Option PyValue} (h : Landed lib sdk who turn target read sent v w')
    (hsdk : sdk.Lawful) {ks : List String} (hks : ∀ k ∈ ks, ∃ t ∈ read, t.key lib = k ∧ turn.answers k = true)
    (htaken : ∃ t ∈ read, t.key lib ∈ ks ∧
      (t ∈ sent → turn.connects (t.key lib) = true ∧ turn.accepts (t.key lib) = true)) :
    nothingToChange lib ((SelfMap.newest (ks.filterMap w'.held)).getD .none) who target = true := by
  cases v with
  | none =>
    have hnil : ks.filterMap w'.held = [] := by
      refine List.filterMap_eq_nil_iff.2 fun k hk => ?_
      obtain ⟨t, ht, rfl, hanswers⟩ := hks k hk
      cases hheld : w'.held (t.key lib) with
      | none => rfl
      | some u =>
        obtain ⟨e, he, -⟩ := h.newest t ht hanswers u hheld
        cases he
    rw [hnil]
    exact h.lists
  | some e =>
    obtain ⟨t, ht, hmem, hsent⟩ := htaken
    obtain ⟨-, -, -, hanswers⟩ := hks _ hmem
    obtain ⟨u, hu, hle⟩ := h.taken t ht hanswers hsent e rfl
    obtain ⟨k, hk, m, hmin, hm, hage⟩ := argmin_of_le ⟨_, hmem, u, hu, hle⟩
      fun k hk u hu => by
        obtain ⟨t, ht, rfl, hanswers⟩ := hks k hk
        obtain ⟨e', he', hle⟩ := h.newest t ht hanswers u hu
        cases he'
        exact hle
    rw [SelfMap.newest, hmin]
    exact (nothingToChange_of_ageKey hsdk (h.own k m hm) (h.ownVersion e rfl) hage).trans h.lists

/-! ## One press -/

theorem mem_versions (hown : OwnOnly sdk who w) {t : RelayTarget} (ht : t ∈ targets)
    (hanswers : turn.answers (t.key lib) = true) (he : w.held (t.key lib) = some e) :
    e ∈ (readNewest lib sdk who turn targets w).filterMap Prod.snd := by
  rw [versions_readNewest hown]
  exact List.mem_filterMap.2 ⟨_, mem_answering ht hanswers, he⟩

theorem own_of_mem_versions (hown : OwnOnly sdk who w)
    (he : e ∈ (readNewest lib sdk who turn targets w).filterMap Prod.snd) : isOwn sdk e who = true := by
  rw [versions_readNewest hown] at he
  obtain ⟨k, -, hk⟩ := List.mem_filterMap.1 he
  exact hown k e hk

/-- A relay that answered and is not missing it holds the latest version. -/
theorem held_of_not_missing (hsdk : sdk.Lawful) (hown : OwnOnly sdk who w) (he : isOwn sdk e who = true)
    {t : RelayTarget} (ht : t ∈ targets) (hanswers : turn.answers (t.key lib) = true)
    (hnot : t ∉ missing lib targets (readNewest lib sdk who turn targets w) e) :
    ∃ u, w.held (t.key lib) = some u ∧ ageKey u = ageKey e := by
  have hid : (w.held (t.key lib)).map idOf = some (idOf e) := by
    by_contra hne
    refine hnot (List.mem_filter.2 ⟨ht, ?_⟩)
    rw [lookup_readNewest hown ht hanswers]
    exact decide_eq_true hne
  obtain ⟨u, hu, hid⟩ := Option.map_eq_some_iff.1 hid
  exact ⟨u, hu, ageKey_eq_of_id hsdk (hown _ u hu) he hid⟩

theorem signChecked_own (hsdk : sdk.Lawful) {tags : List (List String)} {createdAt : ℤ} {check : PyValue → Bool}
    (h : signChecked sdk who tags createdAt check = some e) :
    isOwn sdk e who = true ∧ createdAtOf e = createdAt ∧ check e = true := by
  obtain ⟨hsign, hchecks⟩ := Option.filter_eq_some_iff.1 h
  simp only [Bool.and_eq_true] at hchecks
  obtain ⟨hcreated, hkind, hpubkey⟩ := hsdk.signed hsign
  refine ⟨?_, hcreated, hchecks.2⟩
  simp [isOwn, hkind, hpubkey, hchecks.1.1]

theorem ageKey_lt_of_createdAt (h : createdAtOf e < createdAtOf e') : ageKey e' < ageKey e :=
  Prod.Lex.toLex_lt_toLex.2 (Or.inl (Int.neg_lt_neg h))

/-- A version is sent that no relay that answered is ahead of, and that the others have. -/
theorem landed_sendTo {read sent : List RelayTarget} (hown : OwnOnly sdk who w) (he : isOwn sdk e who = true)
    (hlists : nothingToChange lib e who target = true)
    (hnewest : ∀ t ∈ read, turn.answers (t.key lib) = true → ∀ u, w.held (t.key lib) = some u → ageKey e ≤ ageKey u)
    (hothers : ∀ t ∈ read, turn.answers (t.key lib) = true → t ∉ sent →
      ∃ u, w.held (t.key lib) = some u ∧ ageKey u ≤ ageKey e) :
    Landed lib sdk who turn target read sent (some e)
      (saveChoice turn.on (sendTo lib turn e sent w).2) where
  saved := rfl
  own := (ownOnly_sendTo hown he).saveChoice
  ownVersion := fun e' he' => Option.some.inj he' ▸ he
  lists := hlists
  newest := fun t ht hanswers u hu => by
    refine ⟨e, rfl, ?_⟩
    obtain hnew | hold := spread_cases ageKey (comesTo lib turn sent) e w.held (t.key lib)
    · cases hnew.symm.trans hu
      exact le_rfl
    · exact hnewest t ht hanswers u (hold.symm.trans hu)
  taken := fun t ht hanswers htaken e' he' => by
    cases he'
    by_cases hsent : t ∈ sent
    · exact held_sendTo hsent (htaken hsent).1 (htaken hsent).2
    · obtain ⟨u, hu, hle⟩ := hothers t ht hanswers hsent
      obtain ⟨u', hu', hle'⟩ := spread_le ageKey (comesTo lib turn sent) e hu
      exact ⟨u', hu', hle'.trans hle⟩

/-- Nothing is sent, since the relays that answered have the version, or there is none. -/
theorem landed_unchanged {read : List RelayTarget} {v : Option PyValue} (hown : OwnOnly sdk who w)
    (hv : ∀ e, v = some e → isOwn sdk e who = true)
    (hlists : nothingToChange lib (v.getD .none) who target = true)
    (hnewest : ∀ t ∈ read, turn.answers (t.key lib) = true → ∀ u, w.held (t.key lib) = some u →
      ∃ e, v = some e ∧ ageKey e ≤ ageKey u)
    (hall : ∀ t ∈ read, turn.answers (t.key lib) = true → ∀ e, v = some e →
      ∃ u, w.held (t.key lib) = some u ∧ ageKey u ≤ ageKey e) :
    Landed lib sdk who turn target read [] v (saveChoice turn.on w) where
  saved := rfl
  own := hown.saveChoice
  ownVersion := hv
  lists := hlists
  newest := hnewest
  taken := fun t ht hanswers _ e he => hall t ht hanswers e he

/-- A press that succeeds. -/
theorem publishListed_ok (hsdk : sdk.Lawful) (hown : OwnOnly sdk who w) {a : Published}
    (h : publishListed lib settings sdk who turn target w = (.ok a, w')) :
    ∃ sent v, a.relays = sent.map (relayResult lib turn) ∧
      Landed lib sdk who turn target (publishTargets lib settings (writerRelays lib settings target)) sent v w' := by
  unfold publishListed at h
  dsimp only at h
  split_ifs at h with hread hlisted
  · cases h
  · split at h
    · -- nobody has a version, and nothing is to be listed
      rename_i hlatest
      rw [hlatest] at hlisted
      obtain ⟨hans, rfl⟩ := Prod.mk.inj h
      cases hans
      refine ⟨[], none, rfl, landed_unchanged hown ?_ hlisted ?_ ?_⟩
      · exact fun e he => absurd he.symm (Option.some_ne_none e)
      · intro t ht hanswers u hu
        have hmem := mem_versions hown ht hanswers hu
        rw [List.argmin_eq_none.1 hlatest] at hmem
        cases hmem
      · exact fun t _ _ e he => absurd he.symm (Option.some_ne_none e)
    · rename_i e hlatest
      rw [hlatest] at hlisted
      have he := own_of_mem_versions hown (List.argmin_mem hlatest)
      have hold : ∀ t ∈ publishTargets lib settings (writerRelays lib settings target),
          turn.answers (t.key lib) = true → ∀ u, w.held (t.key lib) = some u → ageKey e ≤ ageKey u :=
        fun t ht hanswers u hu => List.le_of_mem_argmin (mem_versions hown ht hanswers hu) hlatest
      split_ifs at h with hmissing
      · obtain ⟨hans, rfl⟩ := Prod.mk.inj h
        cases hans
        refine ⟨[], some e, rfl, landed_unchanged hown ?_ hlisted ?_ ?_⟩
        · exact fun e' he' => Option.some.inj he' ▸ he
        · exact fun t ht hanswers u hu => ⟨e, rfl, hold t ht hanswers u hu⟩
        · intro t ht hanswers e' he'
          cases he'
          obtain ⟨u, hu, hage⟩ := held_of_not_missing hsdk hown he ht hanswers
            (by rw [hmissing]; exact List.not_mem_nil)
          exact ⟨u, hu, hage.le⟩
      · obtain ⟨hans, rfl⟩ := Prod.mk.inj h
        cases hans
        refine ⟨_, some e, ?_, landed_sendTo hown he hlisted hold fun t ht hanswers hnot => ?_⟩
        · rw [← report_sendTo w e]
        obtain ⟨u, hu, hage⟩ := held_of_not_missing hsdk hown he ht hanswers hnot
        exact ⟨u, hu, hage.le⟩
  · split at h
    · cases h
    · rename_i signed hsigned
      obtain ⟨he, hcreated, hlists⟩ := signChecked_own hsdk hsigned
      split_ifs at h with hok
      · obtain ⟨hans, rfl⟩ := Prod.mk.inj h
        cases hans
        refine ⟨_, some signed, ?_, landed_sendTo hown he hlists (fun t ht hanswers u hu => ?_)
          fun t ht _ hnot => absurd (publishTargets_subset _ _ ht) hnot⟩
        · rw [← report_sendTo w signed]
        have hlt := lt_menuCreatedAt turn.now (mem_versions hown ht hanswers hu)
        rw [← hcreated] at hlt
        exact (ageKey_lt_of_createdAt hlt).le
      · cases h

/-- The relays that a press reads. -/
abbrev readTargets (lib : UrlLib) (settings : PressSettings) (target : List (String × String)) : List RelayTarget :=
  publishTargets lib settings (writerRelays lib settings target)

/-! ## Presses while the relay of the Trusted Assertions is up -/

/-- It answers the read and takes what it is sent. -/
def TaUp (lib : UrlLib) (settings : PressSettings) (turn : Turn) : Prop :=
  turn.answers (taKey lib settings) = true ∧ turn.connects (taKey lib settings) = true ∧
    turn.accepts (taKey lib settings) = true

theorem leads_sendTo {k : String} {on : Bool} (h : Leads ageKey k w.held)
    (hk : comesTo lib turn targets k = true ∨ ∃ u, w.held k = some u ∧ ageKey u ≤ ageKey e) :
    Leads ageKey k (saveChoice on (sendTo lib turn e targets w).2).held :=
  h.spread hk

variable (target) in
theorem publishListed_leads (hurl : isRelayUrl (stripped settings.nostrUploadTaEventsRelayPublicUrl) = true)
    (hsdk : sdk.Lawful) (hown : OwnOnly sdk who w) (hleads : Leads ageKey (taKey lib settings) w.held)
    (hup : TaUp lib settings turn) :
    OwnOnly sdk who (publishListed lib settings sdk who turn target w).2 ∧
      Leads ageKey (taKey lib settings) (publishListed lib settings sdk who turn target w).2.held ∧
      ∀ e, (publishListed lib settings sdk who turn target w).1 = .error e →
        (publishListed lib settings sdk who turn target w).2 = w := by
  obtain ⟨t₀, rest, hread, hkey⟩ := publishTargets_head lib settings hurl target
  have hanswers : turn.answers (t₀.key lib) = true := hkey ▸ hup.1
  unfold publishListed
  dsimp only
  split_ifs
  · exact ⟨hown, hleads, fun _ _ => rfl⟩
  · split
    · exact ⟨hown, hleads, fun _ herr => by cases herr⟩
    · rename_i e hlatest
      have he := own_of_mem_versions hown (List.argmin_mem hlatest)
      split_ifs
      · exact ⟨hown, hleads, fun _ herr => by cases herr⟩
      · -- the latest version is the one that the relay holds
        refine ⟨(ownOnly_sendTo hown he).saveChoice, leads_sendTo hleads (Or.inr ⟨e, ?_, le_rfl⟩), fun _ herr => by cases herr⟩
        rw [newest, versions_readNewest hown, hread, answering, List.filter_cons, if_pos hanswers, List.map_cons,
          hkey, hleads.argmin] at hlatest
        exact hlatest
  · split
    · exact ⟨hown, hleads, fun _ _ => rfl⟩
    · rename_i signed hsigned
      obtain ⟨he, -, -⟩ := signChecked_own hsdk hsigned
      have ht₀ : t₀ ∈ publishTargets lib settings (writerRelays lib settings target ++
          selfEntryRelays lib ((readNewest lib sdk who turn
            (publishTargets lib settings (writerRelays lib settings target)) w).filterMap Prod.snd) who) :=
        publishTargets_subset _ _ (hread ▸ List.mem_cons_self)
      have hconnects : turn.connects (t₀.key lib) = true := hkey ▸ hup.2.1
      have haccepts : turn.accepts (t₀.key lib) = true := hkey ▸ hup.2.2
      split_ifs with hok
      · refine ⟨(ownOnly_sendTo hown he).saveChoice, leads_sendTo hleads (Or.inl ?_), fun _ herr => by cases herr⟩
        exact hkey ▸ comesTo_of_mem ht₀ hconnects haccepts
      · rw [report_sendTo] at hok
        refine absurd (List.any_eq_true.2 ⟨_, List.mem_map_of_mem ht₀, ?_⟩) hok
        rw [relayResult, if_pos ⟨hconnects, haccepts⟩]

variable (userPubkey) in
/-- A press keeps that relay in front; if it succeeds, what it should list is there, and if not
    nothing changes. -/
theorem publish_leads (hurl : isRelayUrl (stripped settings.nostrUploadTaEventsRelayPublicUrl) = true)
    (hsdk : sdk.Lawful) (hown : OwnOnly sdk who w) (hleads : Leads ageKey (taKey lib settings) w.held)
    (hup : TaUp lib settings turn) {res : Except PressError Published}
    (h : publishAssistantTreasureMap lib settings sdk who userPubkey turn w = (res, w')) :
    OwnOnly sdk who w' ∧ Leads ageKey (taKey lib settings) w'.held ∧
      match res with
      | .ok _ => ∃ target, targetOf settings who userPubkey turn = .ok target ∧ w'.treasureMapOn = turn.on ∧
          nothingToChange lib ((w'.held (taKey lib settings)).getD .none) who target = true
      | .error _ => w' = w := by
  unfold publishAssistantTreasureMap at h
  split at h
  · cases h
    exact ⟨hown, hleads, rfl⟩
  · rename_i target htarget
    obtain ⟨hown', hleads', hfailed⟩ := publishListed_leads target hurl hsdk hown hleads hup
    rw [h] at hown' hleads' hfailed
    refine ⟨hown', hleads', ?_⟩
    cases res with
    | error e => exact hfailed e rfl
    | ok a =>
      obtain ⟨sent, v, -, hlanded⟩ := publishListed_ok hsdk hown h
      obtain ⟨t₀, rest, hread, hkey⟩ := publishTargets_head lib settings hurl target
      refine ⟨target, htarget, hlanded.saved, ?_⟩
      have hmem : t₀ ∈ publishTargets lib settings (writerRelays lib settings target) := hread ▸ List.mem_cons_self
      have hfinds : nothingToChange lib ((newest ([t₀.key lib].filterMap w'.held)).getD .none) who target = true :=
        hlanded.finds hsdk (fun k hk => ⟨t₀, hmem, (List.mem_singleton.1 hk).symm, by rw [List.mem_singleton.1 hk, hkey]; exact hup.1⟩)
          ⟨t₀, hmem, List.mem_singleton_self _, fun _ => hkey ▸ hup.2⟩
      rw [hkey] at hfinds
      cases hheld : w'.held (taKey lib settings) with
      | none =>
        rw [List.filterMap_cons_none hheld] at hfinds
        exact hfinds
      | some e =>
        rw [List.filterMap_cons_some hheld] at hfinds
        exact hfinds

variable (sdk w) in
/-- A press goes through if that relay is up and the version passes its own check. -/
theorem publish_ok (hurl : isRelayUrl (stripped settings.nostrUploadTaEventsRelayPublicUrl) = true)
    (hup : TaUp lib settings turn) (htarget : targetOf settings who userPubkey turn = .ok target)
    (hsign : ∃ signed, signChecked sdk who (selfMapTags who target)
      (menuCreatedAt turn.now ((readNewest lib sdk who turn (readTargets lib settings target) w).filterMap Prod.snd))
      (fun signed => sameSelfEntries lib (readSelfEntries lib signed who) target) = some signed) :
    ∃ a w', publishAssistantTreasureMap lib settings sdk who userPubkey turn w = (.ok a, w') := by
  obtain ⟨t₀, rest, hread, hkey⟩ := publishTargets_head lib settings hurl target
  obtain ⟨signed, hsigned⟩ := hsign
  have hmem : t₀ ∈ publishTargets lib settings (writerRelays lib settings target) := hread ▸ List.mem_cons_self
  have hheld : readNewest lib sdk who turn (publishTargets lib settings (writerRelays lib settings target)) w ≠ [] :=
    List.ne_nil_of_mem (List.mem_map_of_mem (List.mem_filter.2 ⟨hmem, hkey ▸ hup.1⟩))
  unfold publishAssistantTreasureMap
  rw [htarget]
  dsimp only
  unfold publishListed
  dsimp only
  rw [if_neg hheld]
  split_ifs
  · split
    · exact ⟨_, _, rfl⟩
    · split_ifs
      · exact ⟨_, _, rfl⟩
      · exact ⟨_, _, rfl⟩
  · rw [hsigned]
    dsimp only
    rw [if_pos]
    · exact ⟨_, _, rfl⟩
    · rw [report_sendTo]
      refine List.any_eq_true.2 ⟨_, List.mem_map_of_mem (publishTargets_subset _ _ hmem), ?_⟩
      rw [relayResult, if_pos (hkey ▸ hup.2)]

/-! ## Samples -/

theorem eq_map_of_mapM {α β : Type} {f : α → Option β} {g : β → α} (hf : ∀ a b, f a = some b → a = g b) {l : List α} :
    ∀ {l' : List β}, l.mapM f = some l' → l = l'.map g := by
  induction l with
  | nil =>
    intro l' h
    cases h
    rfl
  | cons a l ih =>
    intro l' h
    rw [List.mapM_cons] at h
    obtain ⟨b, hb, h⟩ := Option.bind_eq_some_iff.1 h
    obtain ⟨bs, hbs, h⟩ := Option.bind_eq_some_iff.1 h
    cases h
    rw [List.map_cons, ← hf a b hb, ← ih hbs]

/-- The tags of an event whose tags are lists of strings. -/
theorem tagsOf_of_plainTags {tags : List (List String)} (h : plainTags e = some tags) :
    tagsOf e = tags.map fun tag => .list (tag.map .str) := by
  refine eq_map_of_mapM (fun tag strings hstrings => ?_) h
  cases tag with
  | list xs =>
    refine congrArg PyValue.list (eq_map_of_mapM (fun x s hx => ?_) hstrings)
    cases x with
    | str s' => exact congrArg PyValue.str (Option.some.inj hx)
    | _ => cases hx
  | _ => cases hstrings

/-- What the Assistant lists when it is on and when it is off. -/
def sampleTarget (on : Bool) : List (String × String) := if on then [("30382:rank", "wss://ta")] else []

def sampleTags (on : Bool) : List (List String) := selfMapTags (sampleKey 'a') (sampleTarget on) ++ [clientTag]

def sampleTime (on : Bool) : ℤ := if on then 8 else 9

/-- It knows the two events, by the ids it gives them. -/
def sampleSdk : Sdk where
  sign := fun author createdAt tags => some (selfMapEvent author (if createdAt = 8 then "v" else "u") "sig" createdAt tags)
  verify := fun event => ∃ on, plainTags event = some (sampleTags on) ∧ createdAtOf event = sampleTime on ∧
    idOf event = if on then "v" else "u"

theorem sampleSdk_lawful : sampleSdk.Lawful where
  signed := fun {author createdAt tags event} h => by
    cases h
    exact ⟨rfl, rfl, lower_lower author⟩
  contents := fun {event event'} h h' hid => by
    obtain ⟨on, htags, hcreated, hon⟩ := of_decide_eq_true h
    obtain ⟨on', htags', hcreated', hon'⟩ := of_decide_eq_true h'
    obtain rfl : on = on' := by
      rw [hon, hon'] at hid
      cases on <;> cases on' <;> first | rfl | exact absurd hid (by decide)
    rw [tagsOf_of_plainTags htags, tagsOf_of_plainTags htags', hcreated, hcreated']
    exact ⟨rfl, rfl⟩

/-- The version that a press makes. -/
def sampleVersion (on : Bool) : PyValue :=
  selfMapEvent (sampleKey 'a') (if on then "v" else "u") "sig" (sampleTime on) (sampleTags on)

def samplePress : PressSettings where
  nostrUploadTaEventsRelayPublicUrl := "wss://ta"
  trustedListRelay := ""
  dictionaryRelay := ""
  nostrUploadTaEventsRelay := "ws://in"

/-- The reader asks the Assistant for ranks; only the relay of the Trusted Assertions answers. -/
def sampleTurn (on : Bool) : Turn where
  on := on
  readerMap := some (selfMapEvent "c" "r" "sig" 3 [["30382:rank", sampleKey 'a', "wss://ta"]])
  upkeep := some ⟨.live, none⟩
  now := 8
  answers := (· = "ws://in")
  connects := fun _ => true
  keeps := fun _ => false
  accepts := fun _ => true
  refused := fun _ => none

def emptyWorld : World := ⟨fun _ => none, false⟩

theorem sample_target (on : Bool) :
    targetOf samplePress (sampleKey 'a') "c" (sampleTurn on) = .ok (sampleTarget on) := by
  cases on <;> decide +kernel

theorem emptyWorld_own : OwnOnly sampleSdk (sampleKey 'a') emptyWorld := fun _ _ h => by cases h

theorem sample_up (on : Bool) : TaUp plainUrls samplePress (sampleTurn on) :=
  ⟨by cases on <;> decide, rfl, rfl⟩

theorem sample_signed (on : Bool) : signChecked sampleSdk (sampleKey 'a')
    (selfMapTags (sampleKey 'a') (sampleTarget on)) (sampleTime on)
    (fun signed => sameSelfEntries plainUrls (readSelfEntries plainUrls signed (sampleKey 'a')) (sampleTarget on)) =
      some (sampleVersion on) := by
  have hparsed : ∀ entry ∈ sampleTarget on, ∃ text k, parseKey text = some k ∧ entry.1 = k.norm := by
    intro entry hentry
    cases on with
    | false => cases hentry
    | true =>
      rw [List.mem_singleton.1 hentry]
      exact ⟨"30382:rank", _, rfl, by decide⟩
  have hsame := same_readSelfEntries plainUrls (sampleKey 'a') (if on then "v" else "u") "sig" (sampleTime on) hparsed
  refine Option.filter_eq_some_iff.2 ⟨by cases on <;> rfl, ?_⟩
  rw [Bool.and_eq_true, Bool.and_eq_true]
  have hplain : plainTags (sampleVersion on) = some (sampleTags on) := by cases on <;> rfl
  have hverify : sampleSdk.verify (sampleVersion on) = true := by
    simp only [sampleSdk, decide_eq_true_eq]
    exact ⟨on, hplain, rfl, rfl⟩
  exact ⟨⟨hverify, decide_eq_true hplain⟩, hsame⟩

theorem sample_published : ∃ a w', publishAssistantTreasureMap plainUrls samplePress sampleSdk (sampleKey 'a') "c"
    (sampleTurn true) emptyWorld = (.ok a, w') ∧ ∀ r ∈ a.relays, r.ok = true := by
  have hversions : (readNewest plainUrls sampleSdk (sampleKey 'a') (sampleTurn true)
      (readTargets plainUrls samplePress (sampleTarget true)) emptyWorld).filterMap Prod.snd = [] := by
    rw [versions_readNewest emptyWorld_own]
    exact List.filterMap_eq_nil_iff.2 fun _ _ => rfl
  obtain ⟨a, w', hpress⟩ := publish_ok sampleSdk emptyWorld (by decide) (sample_up true) (sample_target true)
    ⟨_, by rw [hversions]; exact sample_signed true⟩
  refine ⟨a, w', hpress, ?_⟩
  unfold publishAssistantTreasureMap at hpress
  rw [sample_target true] at hpress
  obtain ⟨sent, v, hrelays, -⟩ := publishListed_ok sampleSdk_lawful emptyWorld_own hpress
  rw [hrelays]
  intro r hr
  obtain ⟨t, -, rfl⟩ := List.mem_map.1 hr
  rfl

/-- What a withdrawal finds where the published version is. -/
theorem sample_withdrawn {w : World} (hown : OwnOnly sampleSdk (sampleKey 'a') w)
    (hlists : nothingToChange plainUrls ((w.held (taKey plainUrls samplePress)).getD .none) (sampleKey 'a')
      (sampleTarget true) = true) :
    ∃ a w', publishAssistantTreasureMap plainUrls samplePress sampleSdk (sampleKey 'a') "c" (sampleTurn false) w =
      (.ok a, w') := by
  -- no other version lists anything
  have hnil : ∀ e, readSelfEntries plainUrls e (sampleKey 'a') = [] →
      nothingToChange plainUrls e (sampleKey 'a') (sampleTarget true) ≠ true := by
    intro e he
    simp [nothingToChange, he, sameSelfEntries, sampleTarget]
  obtain ⟨e, he, hcreated⟩ : ∃ e, w.held (taKey plainUrls samplePress) = some e ∧ createdAtOf e = 8 := by
    cases he : w.held (taKey plainUrls samplePress) with
    | none =>
      rw [he] at hlists
      exact absurd hlists (hnil _ rfl)
    | some e =>
      obtain ⟨on, htags, hcreated, -⟩ := of_decide_eq_true (verify_of_own (hown _ e he))
      cases on with
      | true => exact ⟨e, rfl, hcreated⟩
      | false =>
        rw [he] at hlists
        refine absurd hlists (hnil _ ?_)
        rw [Option.getD_some, readSelfEntries, tagsOf_of_plainTags htags]
        rfl
  have hkeys : ∀ k ∈ answering plainUrls (sampleTurn false) (readTargets plainUrls samplePress (sampleTarget false)),
      k = taKey plainUrls samplePress := by
    intro k hk
    obtain ⟨t, ht, rfl⟩ := List.mem_map.1 hk
    obtain ⟨-, hanswers⟩ := List.mem_filter.1 ht
    simp only [sampleTurn, decide_eq_true_eq] at hanswers
    rw [hanswers]
    rfl
  obtain ⟨t₀, rest, hread, hkey⟩ := publishTargets_head plainUrls samplePress (by decide) (sampleTarget false)
  have hmem : e ∈ (readNewest plainUrls sampleSdk (sampleKey 'a') (sampleTurn false)
      (readTargets plainUrls samplePress (sampleTarget false)) w).filterMap Prod.snd :=
    mem_versions hown (hread ▸ List.mem_cons_self) (by rw [hkey]; exact (sample_up false).1) (by rw [hkey]; exact he)
  have hnext : menuCreatedAt 8 ((readNewest plainUrls sampleSdk (sampleKey 'a') (sampleTurn false)
      (readTargets plainUrls samplePress (sampleTarget false)) w).filterMap Prod.snd) = 9 := by
    have hmax : (((readNewest plainUrls sampleSdk (sampleKey 'a') (sampleTurn false)
        (readTargets plainUrls samplePress (sampleTarget false)) w).filterMap Prod.snd).map createdAtOf).max? = some 8 := by
      refine List.max?_eq_some_iff.2 ⟨List.mem_map.2 ⟨e, hmem, hcreated⟩, fun n hn => ?_⟩
      obtain ⟨u, hu, rfl⟩ := List.mem_map.1 hn
      rw [versions_readNewest hown] at hu
      obtain ⟨k, hk, hu⟩ := List.mem_filterMap.1 hu
      rw [hkeys k hk] at hu
      cases he.symm.trans hu
      exact hcreated.le
    rw [menuCreatedAt, hmax]
    rfl
  refine publish_ok sampleSdk w (by decide) (sample_up false) (sample_target false) ⟨sampleVersion false, ?_⟩
  have hsigned := sample_signed false
  rw [sampleTime, if_neg Bool.false_ne_true, ← hnext] at hsigned
  exact hsigned

/-! ## The main results -/

/-- **What a press that succeeds leaves behind.**  A reader that looks at any of the relays that
    answered the press, one of which is not reported, finds a Map that lists what the press
    should list. -/
theorem reader_finds_target (hsdk : sdk.Lawful) (hown : OwnOnly sdk who w) {a : Published}
    (h : publishAssistantTreasureMap lib settings sdk who userPubkey turn w = (.ok a, w')) :
    ∃ target, targetOf settings who userPubkey turn = .ok target ∧ w'.treasureMapOn = turn.on ∧
      ∀ ks : List String,
        (∀ k ∈ ks, ∃ t ∈ readTargets lib settings target, t.key lib = k ∧ turn.answers k = true) →
        (∃ t ∈ readTargets lib settings target, t.key lib ∈ ks ∧ ∀ r ∈ a.relays, r.url = t.url → r.ok = true) →
        nothingToChange lib ((newest (ks.filterMap w'.held)).getD .none) who target = true := by
  unfold publishAssistantTreasureMap at h
  split at h
  · cases h
  · rename_i target htarget
    obtain ⟨sent, v, hrelays, hlanded⟩ := publishListed_ok hsdk hown h
    refine ⟨target, htarget, hlanded.saved, fun ks hks htaken => hlanded.finds hsdk hks ?_⟩
    obtain ⟨t, ht, hmem, hok⟩ := htaken
    refine ⟨t, ht, hmem, fun hsent => ok_relayResult (hok _ ?_ ?_)⟩
    · rw [hrelays]
      exact List.mem_map_of_mem hsent
    · unfold relayResult
      split_ifs <;> rfl

theorem sample_reader_finds : ∃ a w', publishAssistantTreasureMap plainUrls samplePress sampleSdk (sampleKey 'a') "c"
    (sampleTurn true) emptyWorld = (.ok a, w') ∧ w'.treasureMapOn = true ∧
    nothingToChange plainUrls ((newest ([taKey plainUrls samplePress].filterMap w'.held)).getD .none) (sampleKey 'a')
      (sampleTarget true) = true := by
  obtain ⟨a, w', hpress, hok⟩ := sample_published
  obtain ⟨target, htarget, hsaved, hfinds⟩ := reader_finds_target sampleSdk_lawful emptyWorld_own hpress
  cases (sample_target true).symm.trans htarget
  obtain ⟨t₀, rest, hread, hkey⟩ := publishTargets_head plainUrls samplePress (by decide) (sampleTarget true)
  have hmem : t₀ ∈ readTargets plainUrls samplePress (sampleTarget true) := by
    rw [readTargets, hread]
    exact List.mem_cons_self
  refine ⟨a, w', hpress, hsaved, hfinds _ (fun k hk => ⟨t₀, hmem, ?_⟩) ⟨t₀, hmem, ?_, fun r hr _ => hok r hr⟩⟩
  · rw [List.mem_singleton.1 hk]
    exact ⟨hkey, (sample_up true).1⟩
  · exact List.mem_singleton.2 hkey

/-- The relay of the Trusted Assertions is in front, and lists what the last press that succeeded
    should list. -/
structure Current (lib : UrlLib) (settings : PressSettings) (sdk : Sdk) (who userPubkey : Pubkey)
    (s : World × Option Turn) : Prop where
  own : OwnOnly sdk who s.1
  leads : Leads ageKey (taKey lib settings) s.1.held
  last : ∀ turn, s.2 = some turn → ∃ target, targetOf settings who userPubkey turn = .ok target ∧
    s.1.treasureMapOn = turn.on ∧ nothingToChange lib ((s.1.held (taKey lib settings)).getD .none) who target = true

theorem Current.press {s : World × Option Turn} (h : Current lib settings sdk who userPubkey s)
    (hurl : isRelayUrl (stripped settings.nostrUploadTaEventsRelayPublicUrl) = true) (hsdk : sdk.Lawful)
    (hup : TaUp lib settings turn) :
    Current lib settings sdk who userPubkey (press lib settings sdk who userPubkey s turn) := by
  unfold SelfMap.press
  split
  · rename_i a w' hpress
    obtain ⟨hown, hleads', hlisted⟩ := publish_leads userPubkey hurl hsdk h.own h.leads hup hpress
    refine ⟨hown, hleads', fun turn' hturn => ?_⟩
    cases hturn
    exact hlisted
  · rename_i e w' hpress
    obtain ⟨hown, hleads', hsame⟩ := publish_leads userPubkey hurl hsdk h.own h.leads hup hpress
    refine ⟨hown, hleads', fun turn' hturn => ?_⟩
    have hlast := h.last turn' hturn
    rwa [← hsame] at hlast

/-- **The relay of the Trusted Assertions is current.**  While it is up, whatever the others do,
    it holds what the last press that succeeded should list, the choice of that press is the one
    that is saved, and no relay holds a newer version. -/
theorem ta_relay_current (hurl : isRelayUrl (stripped settings.nostrUploadTaEventsRelayPublicUrl) = true)
    (hsdk : sdk.Lawful) (hown : OwnOnly sdk who w) (hleads : Leads ageKey (taKey lib settings) w.held)
    {turns : List Turn} (hup : ∀ turn ∈ turns, TaUp lib settings turn) :
    Current lib settings sdk who userPubkey (presses lib settings sdk who userPubkey turns w) := by
  have hrun : ∀ {turns : List Turn} {s : World × Option Turn}, (∀ turn ∈ turns, TaUp lib settings turn) →
      Current lib settings sdk who userPubkey s →
      Current lib settings sdk who userPubkey (turns.foldl (press lib settings sdk who userPubkey) s) := by
    intro turns
    induction turns with
    | nil => exact fun _ h => h
    | cons turn turns ih =>
      intro s hup h
      exact ih (fun t ht => hup t (List.mem_cons_of_mem turn ht)) (h.press hurl hsdk (hup turn List.mem_cons_self))
  exact hrun hup ⟨hown, hleads, fun turn hturn => by cases hturn⟩

/-- A Map is published and withdrawn. -/
theorem sample_current : ∃ w, presses plainUrls samplePress sampleSdk (sampleKey 'a') "c"
    [sampleTurn true, sampleTurn false] emptyWorld = (w, some (sampleTurn false)) ∧ w.treasureMapOn = false ∧
    Current plainUrls samplePress sampleSdk (sampleKey 'a') "c" (w, some (sampleTurn false)) := by
  have hup : ∀ turns : List Bool, ∀ turn ∈ turns.map sampleTurn, TaUp plainUrls samplePress turn := by
    intro turns turn hturn
    obtain ⟨on, -, rfl⟩ := List.mem_map.1 hturn
    exact sample_up on
  have hleads : Leads ageKey (taKey plainUrls samplePress) emptyWorld.held := fun _ _ h => by cases h
  obtain ⟨a₁, w₁, hpress₁, -⟩ := sample_published
  have hafter₁ : press plainUrls samplePress sampleSdk (sampleKey 'a') "c" (emptyWorld, none) (sampleTurn true) =
      (w₁, some (sampleTurn true)) := press_of_ok _ _ _ _ _ hpress₁
  have hpresses₁ : presses plainUrls samplePress sampleSdk (sampleKey 'a') "c" [sampleTurn true] emptyWorld =
      (w₁, some (sampleTurn true)) := by
    rw [presses, List.foldl_cons, List.foldl_nil, hafter₁]
  have hcurrent₁ : Current plainUrls samplePress sampleSdk (sampleKey 'a') "c"
      (presses plainUrls samplePress sampleSdk (sampleKey 'a') "c" [sampleTurn true] emptyWorld) :=
    ta_relay_current (by decide) sampleSdk_lawful emptyWorld_own hleads (hup [true])
  rw [hpresses₁] at hcurrent₁
  obtain ⟨target, htarget, -, hlists⟩ := hcurrent₁.last _ rfl
  cases (sample_target true).symm.trans htarget
  obtain ⟨a₂, w₂, hpress₂⟩ := sample_withdrawn hcurrent₁.own hlists
  have hafter₂ : presses plainUrls samplePress sampleSdk (sampleKey 'a') "c" [sampleTurn true, sampleTurn false]
      emptyWorld = (w₂, some (sampleTurn false)) := by
    rw [presses, List.foldl_cons, List.foldl_cons, List.foldl_nil, hafter₁, press_of_ok _ _ _ _ _ hpress₂]
  have hcurrent₂ : Current plainUrls samplePress sampleSdk (sampleKey 'a') "c"
      (presses plainUrls samplePress sampleSdk (sampleKey 'a') "c" [sampleTurn true, sampleTurn false]
        emptyWorld) :=
    ta_relay_current (by decide) sampleSdk_lawful emptyWorld_own hleads (hup [true, false])
  rw [hafter₂] at hcurrent₂
  obtain ⟨-, -, hsaved, -⟩ := hcurrent₂.last _ rfl
  exact ⟨w₂, hafter₂, hsaved, hcurrent₂⟩

end

end SelfMap

end BrainstormServer
