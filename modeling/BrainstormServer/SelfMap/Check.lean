/-
  What the Assistant's Treasure Map should list (`app/services/self_map_build.py`, with the
  offer of `app/services/duty_menu_build.py`).

  A probe is the Assistant's duty if the reader's most specific key for it names the
  Assistant.  It is live if the offer has a relay for it and the Assistant publishes it
  now.  The entries are chosen greedily from the reader's own keys: as they are, narrowed
  to an offered kind, or narrowed to a published metric.
-/
import BrainstormServer.SelfMap.Keys
import BrainstormServer.Nostr
import Mathlib.Data.Finset.Basic

namespace BrainstormServer

namespace SelfMap

open Nostr

/-! ## The offer -/

/-- The settings that the offer is made from. -/
structure Settings where
  nostrUploadTaEventsRelayPublicUrl : String
  trustedListRelay : String
  dictionaryRelay : String

/-- `TRUSTED_LIST_KIND_ROW`. -/
def trustedListKindRow : String := "30392"

/-- `DICTIONARY_KIND_ROWS`. -/
def dictionaryKindRows : List String := ["39998", "39999"]

/-- `designation_rows`. -/
def designationRows (settings : Settings) (assistantPubkey : Pubkey) : List (String × Pubkey × String) :=
  let relay := settings.nostrUploadTaEventsRelayPublicUrl
  let trustedListRelay := if settings.trustedListRelay ≠ "" then settings.trustedListRelay else relay
  taMetricTags.map (fun tag => ("30382:" ++ tag, assistantPubkey, relay)) ++
    [(trustedListKindRow, assistantPubkey, trustedListRelay)] ++
    if settings.dictionaryRelay ≠ "" then
      dictionaryKindRows.map fun kind => (kind, assistantPubkey, settings.dictionaryRelay)
    else []

/-- `offer_rows`. -/
def offerRows (settings : Settings) (assistantPubkey : Pubkey) : List (String × String) :=
  ((designationRows settings assistantPubkey).filter fun row => row.2.2 ≠ "").map fun row => (row.1, row.2.2)

/-- `OfferRow`. -/
structure OfferRow where
  key : Key
  relay : String
  deriving DecidableEq

/-- `Offer`, which is its rows. -/
structure Offer where
  rows : List OfferRow

/-- `Offer(rows)`; `none` is the `ValueError` of a key that does not parse. -/
def offerOf (rows : List (String × String)) : Option Offer :=
  (rows.mapM fun row => (parseKey row.1).map fun key => OfferRow.mk key row.2).map Offer.mk

namespace Offer

variable (offer : Offer)

/-- `offer.kinds`. -/
def kinds : List ℕ := offer.rows.flatMap fun row => row.key.kinds

/-- `offer.answer`, with the place of the row. -/
def answer (probe : Probe) : Option (OfferRow × ℕ) := winnerOf OfferRow.key offer.rows probe

/-- `offer.covering`. -/
def covering (key : Key) : Option OfferRow :=
  mostSpecific OfferRow.key (fun row => covers row.key key) offer.rows

/-- `offer.order_of`. -/
def orderOf (key : Key) : ℕ :=
  match offer.covering key with
  | some row => offer.rows.idxOf row
  | none => offer.rows.length

end Offer

/-! ## What is live -/

/-- `ScoresUpkeep.status`. -/
inductive UpkeepStatus | live | notLanded | notScheduled | upkeepStopped
  deriving DecidableEq

/-- `ScoresUpkeep`. -/
structure ScoresUpkeep where
  status : UpkeepStatus
  lastLandedAt : Option ℤ

/-- Why a part is not live. -/
inductive Reason
  | unchecked
  | notPublishedHere
  | nothingToPublish
  | upkeep (status : UpkeepStatus)
  deriving DecidableEq

/-- `Live`. -/
structure Live where
  live : Bool
  relay : Option String
  reason : Option Reason
  lastLandedAt : Option ℤ
  deriving DecidableEq

/-- `evaluate_live`. -/
def evaluateLive (probe : Probe) (offer : Offer) (scores : ScoresUpkeep) : Live :=
  match offer.answer probe with
  | none => ⟨false, none, none, none⟩
  | some (row, _) =>
    if probe.scope.unchecked?.isSome then ⟨false, some row.relay, some .unchecked, none⟩
    else if isScoreKind probe.kind then
      if probe.kind ≠ scoreKind ∨ ¬ (probe.scope.metric?.any (· ∈ publishedScoreMetrics)) then
        ⟨false, some row.relay, some .notPublishedHere, none⟩
      else if scores.status = .live then ⟨true, some row.relay, none, none⟩
      else ⟨false, some row.relay, some (.upkeep scores.status), scores.lastLandedAt⟩
    else if isListKind probe.kind then ⟨false, some row.relay, some (.upkeep .notScheduled), none⟩
    else ⟨false, some row.relay, some .notPublishedHere, none⟩

/-! ## Duties -/

/-- `Group`: a key of a Map, with the providers it names. -/
structure Group where
  key : Key
  providers : Finset Pubkey
  parsed : ∃ text, parseKey text = some key

/-- `in_supported_sets`. -/
def inSupportedSets (probe : Probe) : Bool :=
  if probe.scope.unchecked?.isSome then true
  else if probe.kind = scoreKind then probe.scope.metric?.any (· ∈ publishedScoreMetrics)
  else !isConceptKind probe.kind

/-- `Duty`; the winner comes with its place among the groups. -/
structure Duty where
  probe : Probe
  winner : Option (Group × ℕ)
  duty : Bool

/-- The winning group names `who`, and its part is supported if its key is a scope. -/
def isDuty (who : Pubkey) (probe : Probe) (winner : Option (Group × ℕ)) : Bool :=
  winner.any fun w => who ∈ w.1.providers ∧ (w.1.key.scope ≠ .all ∨ inSupportedSets probe)

/-- `duties_of`, in the order of the probes. -/
def dutiesOf (groups : List Group) (assistant : Pubkey) (probes : List Probe) : List Duty :=
  probes.map fun probe =>
    let winner := winnerOf Group.key groups probe
    ⟨probe, winner, isDuty (lower assistant) probe winner⟩

/-- `duties.get(probe)`. -/
def dutyFor (duties : List Duty) (probe : Probe) : Option Duty := duties.find? (·.probe = probe)

/-! ## The entries -/

section
variable (duties : List Duty) (live : Probe → Option Live) (offer : Offer)

/-- An entry: a key and its relay. -/
abbrev Entry := Key × String

/-- `has`. -/
def has (chosen : List Entry) (norm : String) : Bool := chosen.any fun entry => entry.1.norm = norm

/-- A duty that the candidate would win among the entries chosen so far; the candidate is
    the one in the last place. -/
def wouldWin (chosen : List Entry) (candidate : Key) (d : Duty) : Bool :=
  d.duty && matchesProbe candidate d.probe &&
    ((winnerOf id (chosen.map Prod.fst ++ [candidate]) d.probe).any fun w => w.2 = chosen.length)

/-- The probe is live at the relay. -/
def liveAt (relay : String) (probe : Probe) : Bool :=
  (live probe).any fun state => state.live && state.relay = some relay

/-- `valid`. -/
def valid (chosen : List Entry) (candidate : Key) (relay : String) : Bool :=
  (duties.filter (wouldWin chosen candidate)).all (fun d => liveAt live relay d.probe) &&
    duties.any (wouldWin chosen candidate)

/-- `try_key`; `none` is `False`, and the entries stay as they are. -/
def tryKey (chosen : List Entry) (candidate : Option Key) : Option (List Entry) :=
  candidate.bind fun candidate =>
    if has chosen candidate.norm then none
    else (offer.covering candidate).bind fun row =>
      if valid duties live chosen candidate row.relay then some (chosen ++ [(candidate, row.relay)])
      else none

/-- The meet with a kind is added, unless it is there. -/
def addMeet (k : Key) (meets : List Key) (kind : ℕ) : List Key :=
  match meetOf k kind with
  | some meet => if meets.all (·.norm ≠ meet.norm) then meets ++ [meet] else meets
  | none => meets

/-- The meets of a key with the offered kinds. -/
def meetsOf (k : Key) : List Key := (k.kinds.filter (· ∈ offer.kinds)).foldl (addMeet k) []

/-- A published metric that is a duty under `k` is tried. -/
def tryMetric (k : Key) (chosen : List Entry) (metric : String) : List Entry :=
  if (dutyFor duties ⟨scoreKind, .metric metric⟩).any fun d =>
      d.duty && d.winner.any fun w => w.1.key.norm = k.norm then
    (tryKey duties live offer chosen (parseKey (toString scoreKind ++ ":" ++ metric))).getD chosen
  else chosen

/-- The meet itself, if it is not `k`, or the metrics under it. -/
def tryMeet (k : Key) (chosen : List Entry) (meet : Key) : List Entry :=
  match if meet.norm ≠ k.norm then tryKey duties live offer chosen (some meet) else none with
  | some more => more
  | none =>
    if meet.kinds ≠ [scoreKind] ∨ meet.scope ≠ .all then chosen
    else publishedScoreMetrics.foldl (tryMetric duties live offer k) chosen

/-- One of the reader's keys that name the Assistant. -/
def trySelf (chosen : List Entry) (k : Key) : List Entry :=
  if has chosen k.norm then chosen
  else
    match tryKey duties live offer chosen (some k) with
    | some more => more
    | none => (sortBy Before (meetsOf offer k)).foldl (tryMeet duties live offer k) chosen

/-- `build_should_say`. -/
def buildShouldSay (groups : List Group) (assistant : Pubkey) : List Entry :=
  let mine := sortBy Before ((groups.filter fun g => lower assistant ∈ g.providers).map Group.key)
  sortBy (fun a b => offer.orderOf a.1 ≤ offer.orderOf b.1) (mine.foldl (trySelf duties live offer) [])

end

/-! ## The lines -/

/-- `DutyLine.status`. -/
inductive LineStatus | live | offered | notOffered | elsewhere
  deriving DecidableEq

/-- `DutyLine`. -/
structure DutyLine where
  key : String
  status : LineStatus
  relay : Option String := none
  reason : Option Reason := none
  lastLandedAt : Option ℤ := none
  entries : List (String × String) := []
  deriving DecidableEq

/-- `_profiles_spelling`. -/
def profilesSpelling (key : Key) : Bool :=
  (key.slot = "30392" ∨ key.slot = "30382") ∧ 3 ≤ key.segs.length ∧
    (key.segs[0]? = some "tag" ∨ key.segs[0]? = some "pin") ∧ key.segs[1]? = some ""

/-- `_line_key`. -/
def lineKey (key row : Key) : String :=
  if covers row key then key.norm
  else if covers key row then row.norm
  else
    let common := key.kinds.filter (· ∈ row.kinds)
    match if common.length = 1 then common.head?.bind (meetOf key) else none with
    | none => key.norm
    | some meet => if profilesSpelling meet ∧ ¬ profilesSpelling key then key.norm else meet.norm

section
variable (live : Probe → Option Live) (should : List Entry)

/-- `live[probe]`; every probe of the check has an entry. -/
def stateOf (probe : Probe) : Live := (live probe).getD ⟨false, none, none, none⟩

/-- The entries that list the probes of a part, each once; none if one is not listed at the
    relay where it is live. -/
def entriesFor (onDuty : List Probe) : List (String × String) :=
  ((onDuty.mapM fun probe =>
    (winnerOf Prod.fst should probe).bind fun w =>
      if (stateOf live probe).relay = some w.1.2 then some (w.1.1.norm, w.1.2) else none).map
        List.eraseDups).getD []

/-- `_part_line`. -/
def partLine (key : Key) (row : OfferRow) (part : List Duty) : DutyLine :=
  let onDuty := (part.filter (·.duty)).map (·.probe)
  if onDuty = [] then
    let first := (part.head?.map fun d => stateOf live d.probe).getD ⟨false, none, none, none⟩
    { key := lineKey key row.key
      status := .offered
      relay := some row.relay
      reason := if first.live then some .nothingToPublish else first.reason }
  else
    match onDuty.find? fun probe => !(stateOf live probe).live with
    | some probe =>
      { key := lineKey key row.key
        status := .offered
        relay := some row.relay
        reason := (stateOf live probe).reason
        lastLandedAt := (stateOf live probe).lastLandedAt }
    | none =>
      { key := lineKey key row.key
        status := .live
        relay := some row.relay
        entries := entriesFor live should onDuty }

/-- The groups that take a part of a key's probes from it, each once. -/
def elsewhereOf (who : Pubkey) (duties : List Duty) (group : Group × ℕ) : List (Group × ℕ) :=
  duties.foldl (fun found d =>
    match d.winner with
    | none => found
    | some w =>
      if w.2 = group.2 ∨ who ∈ w.1.providers ∨ ¬ matchesProbe group.1.key d.probe ∨
          0 ≤ compareKeys w.1.key group.1.key ∨ found.any (·.2 = w.2) then found
      else found ++ [w]) []

/-- The lines of one group. -/
def groupLines (who : Pubkey) (duties : List Duty) (offer : Offer) (lines : List DutyLine)
    (group : Group × ℕ) : List DutyLine :=
  if who ∉ group.1.providers then lines
  else
    let won := duties.filter fun d => d.winner.any (·.2 = group.2)
    let parts := offer.rows.zipIdx.filterMap fun row =>
      let part := won.filter fun d => (offer.answer d.probe).any (·.2 = row.2)
      if part = [] then none else some (partLine live should group.1.key row.1 part)
    let missing :=
      if won.any fun d => d.duty && (offer.answer d.probe).isNone then
        [{ key := group.1.key.norm, status := .notOffered : DutyLine }]
      else []
    (elsewhereOf who duties group).foldl (fun lines w =>
      let line : DutyLine := { key := w.1.key.norm, status := .elsewhere }
      if line ∈ lines then lines else lines ++ [line]) (lines ++ parts ++ missing)

/-- `duty_lines`. -/
def dutyLines (groups : List Group) (assistant : Pubkey) (duties : List Duty) (offer : Offer) :
    List DutyLine :=
  groups.zipIdx.foldl (groupLines live should (lower assistant) duties offer) []

end

/-! ## The check -/

/-- `SelfMapCheck`. -/
structure SelfMapCheck where
  duties : List DutyLine
  shouldSay : List (String × String)

/-- The probes of a Map. -/
def probesOf (groups : List Group) : List Probe := buildProbes (groups.map Group.key)

/-- `live` of `evaluate_self_map`. -/
def liveOf (groups : List Group) (offer : Offer) (scores : ScoresUpkeep) (probe : Probe) : Option Live :=
  if probe ∈ probesOf groups then some (evaluateLive probe offer scores) else none

/-- `should` of `evaluate_self_map`. -/
def shouldOf (groups : List Group) (offer : Offer) (assistant : Pubkey) (scores : ScoresUpkeep) : List Entry :=
  buildShouldSay (dutiesOf groups assistant (probesOf groups)) (liveOf groups offer scores) offer groups
    assistant

/-- `evaluate_self_map`; `none` is the `ValueError` of the offer. -/
def evaluateSelfMap (groups : List Group) (rows : List (String × String)) (assistant : Pubkey)
    (scores : ScoresUpkeep) : Option SelfMapCheck :=
  (offerOf rows).map fun offer =>
    let should := shouldOf groups offer assistant scores
    { duties := dutyLines (liveOf groups offer scores) should groups assistant
        (dutiesOf groups assistant (probesOf groups)) offer
      shouldSay := should.map fun entry => (entry.1.norm, entry.2) }

end SelfMap

end BrainstormServer
