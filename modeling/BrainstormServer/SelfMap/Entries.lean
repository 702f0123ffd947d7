/-
  Writing the Assistant's Treasure Map and reading it back (`app/services/self_map_build.py`,
  with `relay_key` of `app/services/duty_menu_build.py` and the tag of
  `app/utils/client_tag.py`).

  An entry is a key in its one spelling and a relay as it is written.  Two lists of entries
  are the same if they have the same keys at the same relays, and a relay is told by its
  `relay_key`, which takes no notice of white space around it.

  * `normalizeKey_idem`: the one spelling of the one spelling;
  * `readTag_selfMapTag`: what is written is read, the relay trimmed;
  * `map_written`: so a Map that was just published says what it should.
-/
import BrainstormServer.Nsec.KeyFile
import BrainstormServer.SelfMap.ShouldSay

namespace BrainstormServer

namespace SelfMap

open Nostr

/-! ## Relays -/

/-- What `urlsplit` returns, with its `hostname` and its `port`. -/
structure UrlParts where
  scheme : String
  hostname : Option String
  port : Option ℕ
  path : String
  query : String

/-- The library, as far as a relay is told by it. -/
structure UrlLib where
  /-- `str.lower` -/
  lower : String → String
  /-- `urlsplit`, with the `port`; `none` is the `ValueError` of either -/
  urlsplit : String → Option UrlParts

/-- `s.strip()`. -/
def stripped (s : String) : String := String.ofList (Nsec.strip s.toList)

/-- `s.rstrip("/")`. -/
def rstripSlash (s : String) : String := String.ofList (s.toList.rdropWhile (· = '/'))

/-- `_DEFAULT_PORTS.get`. -/
def defaultPort (scheme : String) : Option ℕ :=
  if scheme = "ws" then some 80 else if scheme = "wss" then some 443 else none

section
variable (lib : UrlLib)

/-- `relay_key`. -/
def relayKey (url : String) : String :=
  let raw := stripped url
  match lib.urlsplit raw with
  | none => rstripSlash (lib.lower raw)
  | some parts =>
    let hostname := parts.hostname.getD ""
    if parts.scheme = "" ∨ hostname = "" then rstripSlash (lib.lower raw)
    else
      let scheme := lib.lower parts.scheme
      let bare := if ':' ∈ hostname.toList then "[" ++ hostname ++ "]" else hostname
      let host :=
        match parts.port with
        | some port => if some port ≠ defaultPort scheme then bare ++ ":" ++ toString port else bare
        | none => bare
      let query := if parts.query ≠ "" then "?" ++ parts.query else ""
      scheme ++ "://" ++ host ++ rstripSlash parts.path ++ query

/-! ## Reading -/

/-- `_tags_of`. -/
def tagsOf (event : PyValue) : List PyValue :=
  match dictGet event.asDict "tags" with
  | .list tags => tags
  | _ => []

/-- The entry of a tag of `who`, if it is one. -/
def readTag (who : Pubkey) : PyValue → Option (String × String)
  | .list xs =>
    match xs[1]?.bind str? with
    | none => none
    | some provider =>
      if lower provider ≠ who then none
      else ((xs[0]?.bind str?).bind parseKey).map fun key =>
        (key.norm, ((xs[2]?.bind str?).map stripped).getD "")
  | _ => none

/-- How an entry is told: its key and its relay. -/
def entryId (entry : String × String) : String × String := (entry.1, relayKey lib entry.2)

/-- An entry is kept if it is the first of its key and relay. -/
def addEntry (out : List (String × String)) (entry : String × String) : List (String × String) :=
  if entryId lib entry ∈ out.map (entryId lib) then out else out ++ [entry]

/-- `read_self_entries`. -/
def readSelfEntries (event : PyValue) (author : Pubkey) : List (String × String) :=
  ((tagsOf event).filterMap (readTag (lower author))).foldl (addEntry lib) []

/-- `same_self_entries`. -/
def sameSelfEntries (a b : List (String × String)) : Bool :=
  (a.map (entryId lib)).toFinset = (b.map (entryId lib)).toFinset

/-- `nothing_to_change`. -/
def nothingToChange (latest : PyValue) (author : Pubkey) (target : List (String × String)) : Bool :=
  sameSelfEntries lib (readSelfEntries lib latest author) target

end

/-! ## Writing -/

/-- `self_map_tags`. -/
def selfMapTags (author : Pubkey) (entries : List (String × String)) : List (List String) :=
  entries.map fun entry => [entry.1, lower author, entry.2]

/-- `CLIENT_TAG`. -/
def clientTag : List String := ["client", "Brainstorm"]

/-- A version of the Map as the relay has it. -/
def selfMapEvent (author id sig : String) (createdAt : ℤ) (tags : List (List String)) : PyValue :=
  .dict [("id", .str id), ("pubkey", .str (lower author)), ("created_at", .int createdAt), ("kind", .int 10040),
    ("tags", .list (tags.map fun tag => .list (tag.map .str))), ("content", .str ""), ("sig", .str sig)]

/-! ## The one spelling -/

/-- **The one spelling of a key is its own.** -/
theorem normalizeKey_idem (key : String) : normalizeKey (normalizeKey key) = normalizeKey key := by
  by_cases hslot : slotOf key = "39998" ∨ slotOf key = "39999"
  · by_cases hheader : slotOf key = "39998" ∧ restOf key = "dlist-header"
    · have hnorm : normalizeKey key = "39998" := by rw [normalizeKey, if_pos hslot, if_pos hheader]
      rw [hnorm]
      rfl
    · have hnorm : normalizeKey key = key := by rw [normalizeKey, if_pos hslot, if_neg hheader]
      rw [hnorm, hnorm]
  · have hnorm : normalizeKey key = join (slotOf key :: segmentsOf key) := by rw [normalizeKey, if_neg hslot]
    have hslot' := (slotOf_restOf_join (colon_not_mem_slotOf key) (segmentsOf key)).1
    rw [hnorm, normalizeKey, hslot', if_neg hslot, segmentsOf_join (colon_not_mem_slotOf key)
      (fun s hs => colon_not_mem_segmentsOf hs) (segmentsOf_trimmed key)]

/-! ## The round trip -/

theorem stripped_stripped (s : String) : stripped (stripped s) = stripped s := by
  unfold stripped
  rw [String.toList_ofList, (Nsec.trimmed_strip s.toList).strip_eq]

/-- A relay is told without the white space around it. -/
theorem relayKey_stripped (lib : UrlLib) (url : String) : relayKey lib (stripped url) = relayKey lib url := by
  unfold relayKey
  rw [stripped_stripped]

/-- **What is written is read**, the relay trimmed. -/
theorem readTag_selfMapTag (author : Pubkey) {entry : String × String} {k : Key}
    (h : parseKey entry.1 = some k) :
    readTag (lower author) (.list ([entry.1, lower author, entry.2].map .str)) =
      some (k.norm, stripped entry.2) := by
  simp [readTag, str?, lower_lower, h]

theorem readTag_clientTag (who : Pubkey) : readTag who (.list (clientTag.map .str)) = none := by
  have hparse : parseKey "client" = none := by decide
  simp [readTag, str?, clientTag, hparse]

/-- Dropping what comes again does not change what the entries are told by. -/
theorem mem_ids_foldl {lib : UrlLib} {x : String × String} : ∀ {l out : List (String × String)},
    x ∈ (l.foldl (addEntry lib) out).map (entryId lib) ↔
      x ∈ out.map (entryId lib) ∨ x ∈ l.map (entryId lib) := by
  intro l
  induction l with
  | nil => simp
  | cons entry l ih =>
    intro out
    rw [List.foldl_cons, ih, addEntry, List.map_cons, List.mem_cons]
    split_ifs with hmem
    · constructor
      · exact fun h => h.imp id Or.inr
      · rintro (h | rfl | h)
        · exact Or.inl h
        · exact Or.inl hmem
        · exact Or.inr h
    · simp only [List.map_append, List.map_cons, List.map_nil, List.mem_append, List.mem_singleton, or_assoc]

/-- Of entries that are told apart all are kept. -/
theorem foldl_addEntry {lib : UrlLib} : ∀ {l out : List (String × String)},
    ((out ++ l).map (entryId lib)).Nodup → l.foldl (addEntry lib) out = out ++ l := by
  intro l
  induction l with
  | nil => simp
  | cons entry l ih =>
    intro out hnodup
    have hnew : entryId lib entry ∉ out.map (entryId lib) := by
      rw [List.map_append, List.map_cons] at hnodup
      exact fun hmem => (List.nodup_append.1 hnodup).2.2 _ hmem _ List.mem_cons_self rfl
    rw [List.foldl_cons, addEntry, if_neg hnew, ih, List.append_assoc, List.singleton_append]
    rwa [List.append_assoc, List.singleton_append]

/-- The tags of a version of the Map. -/
theorem tagsOf_selfMapEvent (author id sig : String) (createdAt : ℤ) (tags : List (List String)) :
    tagsOf (selfMapEvent author id sig createdAt tags) = tags.map fun tag => .list (tag.map .str) := rfl

/-- Reading what was written, one by one. -/
theorem filterMap_map_some {α β γ : Type} {read : β → Option γ} {write : α → β} {value : α → γ} {l : List α}
    (h : ∀ x ∈ l, read (write x) = some (value x)) : (l.map write).filterMap read = l.map value := by
  rw [List.filterMap_map, List.filterMap_congr (f := read ∘ write) h]
  exact congrFun List.filterMap_eq_map l

/-- **The entries that are read from a version are the ones it was made of**, their relays
    trimmed. -/
theorem filterMap_readTag (author : Pubkey) {entries : List (String × String)}
    (h : ∀ entry ∈ entries, ∃ text k, parseKey text = some k ∧ entry.1 = k.norm) :
    ((selfMapTags author entries ++ [clientTag]).map fun tag => PyValue.list (tag.map .str)).filterMap
      (readTag (lower author)) = entries.map fun entry => (entry.1, stripped entry.2) := by
  have hclient : [PyValue.list (clientTag.map .str)].filterMap (readTag (lower author)) = [] := by
    rw [List.filterMap_cons, readTag_clientTag]
    rfl
  rw [List.map_append, List.filterMap_append, List.map_singleton, hclient, List.append_nil, selfMapTags, List.map_map]
  refine filterMap_map_some fun entry hentry => ?_
  obtain ⟨text, k, hk, hnorm⟩ := h entry hentry
  rw [Function.comp_apply, readTag_selfMapTag author (hnorm ▸ parseKey_norm hk), hnorm]

theorem map_entryId_stripped (lib : UrlLib) (entries : List (String × String)) :
    (entries.map fun entry => (entry.1, stripped entry.2)).map (entryId lib) = entries.map (entryId lib) := by
  rw [List.map_map]
  refine List.map_congr_left fun entry _ => ?_
  simp only [Function.comp_apply, entryId, relayKey_stripped]

/-- What is read of a version that lists `entries`. -/
theorem readSelfEntries_selfMapTags (lib : UrlLib) (author id sig : String) (createdAt : ℤ)
    {entries : List (String × String)}
    (h : ∀ entry ∈ entries, ∃ text k, parseKey text = some k ∧ entry.1 = k.norm) :
    readSelfEntries lib (selfMapEvent author id sig createdAt (selfMapTags author entries ++ [clientTag])) author =
      (entries.map fun entry => (entry.1, stripped entry.2)).foldl (addEntry lib) [] := by
  rw [readSelfEntries, tagsOf_selfMapEvent, filterMap_readTag author h]

/-- What was just published is what it should be. -/
theorem same_readSelfEntries (lib : UrlLib) (author id sig : String) (createdAt : ℤ)
    {entries : List (String × String)}
    (h : ∀ entry ∈ entries, ∃ text k, parseKey text = some k ∧ entry.1 = k.norm) :
    sameSelfEntries lib
      (readSelfEntries lib (selfMapEvent author id sig createdAt (selfMapTags author entries ++ [clientTag])) author)
      entries = true := by
  unfold sameSelfEntries
  rw [decide_eq_true_eq, readSelfEntries_selfMapTags lib author id sig createdAt h]
  ext x
  rw [List.mem_toFinset, List.mem_toFinset, mem_ids_foldl, map_entryId_stripped]
  simp

/-- **Writing a Map and reading it back changes nothing.**  The one spelling of a key is its
    own and reads as the key; of a Map that was just published the entries are read back with
    their relays trimmed, of each key and relay the first; and it lists what it should. -/
theorem map_written (lib : UrlLib) (author id sig : String) (createdAt : ℤ) (entries : List (String × String))
    (h : ∀ entry ∈ entries, ∃ text k, parseKey text = some k ∧ entry.1 = k.norm) :
    (∀ key, normalizeKey (normalizeKey key) = normalizeKey key) ∧
    (∀ text k, parseKey text = some k → parseKey k.norm = parseKey text) ∧
    readSelfEntries lib (selfMapEvent author id sig createdAt (selfMapTags author entries ++ [clientTag])) author =
      (entries.map fun entry => (entry.1, stripped entry.2)).foldl (addEntry lib) [] ∧
    ((entries.map (entryId lib)).Nodup →
      readSelfEntries lib (selfMapEvent author id sig createdAt (selfMapTags author entries ++ [clientTag])) author =
        entries.map fun entry => (entry.1, stripped entry.2)) ∧
    sameSelfEntries lib
      (readSelfEntries lib (selfMapEvent author id sig createdAt (selfMapTags author entries ++ [clientTag])) author)
      entries = true ∧
    nothingToChange lib (selfMapEvent author id sig createdAt (selfMapTags author entries ++ [clientTag])) author
      entries = true := by
  have hread := readSelfEntries_selfMapTags lib author id sig createdAt h
  refine ⟨normalizeKey_idem, fun _ _ hk => (parseKey_norm hk).trans hk.symm, hread, fun hnodup => ?_,
    same_readSelfEntries lib author id sig createdAt h, same_readSelfEntries lib author id sig createdAt h⟩
  rw [hread, foldl_addEntry (by rwa [List.nil_append, map_entryId_stripped]), List.nil_append]

/-- A library that takes no relay apart. -/
def plainUrls : UrlLib := ⟨lower, fun _ => none⟩

/-- A key with a tail and one without, one relay with white space around it and one without. -/
def sampleEntries : List (String × String) := [("30382:rank", " wss://a/ "), ("30382", "wss://a")]

theorem sampleEntries_written :
    readSelfEntries plainUrls (selfMapEvent "Ab" "id" "sig" 7 (selfMapTags "Ab" sampleEntries ++ [clientTag])) "Ab" =
      [("30382:rank", "wss://a/"), ("30382", "wss://a")] ∧
    nothingToChange plainUrls
      (selfMapEvent "Ab" "id" "sig" 7 (selfMapTags "Ab" sampleEntries ++ [clientTag])) "Ab" sampleEntries = true := by
  obtain ⟨-, -, -, hread, -, hsame⟩ := map_written plainUrls "Ab" "id" "sig" 7 sampleEntries (by
    intro entry hentry
    rcases List.mem_pair.1 hentry with rfl | rfl
    · exact ⟨"30382:rank:", _, rfl, by decide⟩
    · exact ⟨"30382", _, rfl, by decide⟩)
  exact ⟨hread (by decide), hsame⟩

end SelfMap

end BrainstormServer
