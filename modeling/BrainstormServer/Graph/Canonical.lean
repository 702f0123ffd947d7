/-
  The readers that let account keys in (`p_tag_pubkeys` of `app/utils/nostr.py`,
  `parse_designated_pubkeys` of `app/services/designation_service.py`, `validate_pubkey` of
  `app/routers/open_ranking/common.py`).

  A key is 64 lower case hex digits.  All three lower the case and match `^[0-9a-f]{64}$`,
  whose `$` also matches before a newline at the end: a key with a newline behind it is let
  in as it is, and is another key than the one it shows.

  * `hex64Match_iff`: what the pattern matches;
  * `gather_eq`: what both loops over tags collect;
  * `canonical_iff`: what is collected is in order just if no value is a key with a newline.
-/
import BrainstormServer.Conc.Tables
import BrainstormServer.Nostr

namespace BrainstormServer

namespace Graph

open Nostr

/-! ## Reading tags -/

/-- A value of a tag that is read, `none` if the tag is passed over; without a result where
    reading it raises. -/
abbrev Reading := PyValue → Option (Option String)

/-- What `p_tag_pubkeys` reads of a tag. -/
def pTagValue : Reading := fun tag =>
  if !tag.truthy then some none
  else
    match tag with
    | .list (name :: rest) => some (if str? name = some "p" then rest.head?.bind str? else none)
    | .str s =>
      match s.toList with
      | 'p' :: c :: _ => some (some (String.singleton c))
      | _ => some none
    -- `tag[0]` of a dict whose keys are strings, or of a number
    | _ => none

/-- The zeros of the decimal digits, ten code points each. -/
def decimalZeros : List ℕ :=
  [0x30, 0x660, 0x6f0, 0x7c0, 0x966, 0x9e6, 0xa66, 0xae6, 0xb66, 0xbe6, 0xc66, 0xce6, 0xd66, 0xde6, 0xe50, 0xed0,
    0xf20, 0x1040, 0x1090, 0x17e0, 0x1810, 0x1946, 0x19d0, 0x1a80, 0x1a90, 0x1b50, 0x1bb0, 0x1c40, 0x1c50, 0xa620,
    0xa8d0, 0xa900, 0xa9d0, 0xa9f0, 0xaa50, 0xabf0, 0xff10, 0x104a0, 0x10d30, 0x11066, 0x110f0, 0x11136, 0x111d0,
    0x112f0, 0x11450, 0x114d0, 0x11650, 0x116c0, 0x11730, 0x118e0, 0x11950, 0x11c50, 0x11d50, 0x11da0, 0x11f50,
    0x16a60, 0x16ac0, 0x16b50, 0x1d7ce, 0x1d7d8, 0x1d7e2, 0x1d7ec, 0x1d7f6, 0x1e140, 0x1e2f0, 0x1e4f0, 0x1e950,
    0x1fbf0]

/-- `\d`. -/
def isDecimal (c : Char) : Bool := decimalZeros.any fun d => d ≤ c.toNat && c.toNat < d + 10

/-- `_DESIGNATION_TAG_NAME.match`; what `$` lets pass is taken off first. -/
def designationTagName (s : String) : Bool :=
  let name := if s.toList.getLast? = some '\n' then s.toList.dropLast else s.toList
  name.head?.any isDecimal &&
    match name.dropWhile isDecimal with
    | [] => true
    | ':' :: rest => '\n' ∉ rest
    | _ => false

/-- What `parse_designated_pubkeys` reads of a tag. -/
def designationValue : Reading := fun tag =>
  match tag with
  | .list (name :: value :: _) =>
    match str? name, str? value with
    | some name, some value => some (if designationTagName name then some value else none)
    | _, _ => some none
  | .list _ => some none
  | .str s =>
    match s.toList with
    | name :: value :: _ =>
      some (if designationTagName (String.singleton name) then some (String.singleton value) else none)
    | _ => some none
  -- a dict has a length, and no key 0
  | .dict entries => if entries.length < 2 then some none else none
  | _ => none

/-- The loop of both readers, with what they also ask of a key. -/
def gather (read : Reading) (keep : Pubkey → Bool) : List PyValue → List Pubkey → Option (List Pubkey)
  | [], seen => some seen
  | tag :: tags, seen =>
    (read tag).bind fun
      | none => gather read keep tags seen
      | some value =>
        let pubkey := lower value
        if !hex64Match pubkey || !keep pubkey || pubkey ∈ seen then gather read keep tags seen
        else gather read keep tags (seen ++ [pubkey])

/-- `p_tag_pubkeys`. -/
def pTagPubkeysJson (tags : List PyValue) : Option (List Pubkey) := gather pTagValue (fun _ => true) tags []

/-- `parse_designated_pubkeys`. -/
def parseDesignatedPubkeys (tags : List PyValue) (observer : String) : Option (List Pubkey) :=
  gather designationValue (· ≠ observer) tags []

structure HTTPException where
  statusCode : ℕ
  detail : String
  deriving DecidableEq

/-- `validate_pubkey`. -/
def validatePubkey (value : PyValue) (fieldName : String) : Except HTTPException Pubkey :=
  match str? value with
  | none => .error ⟨422, fieldName ++ " must be a 64-character lowercase hex string"⟩
  | some value =>
    let normalised := lower value
    if !hex64Match normalised then
      .error ⟨422, fieldName ++ " is not a valid 64-character lowercase hex pubkey"⟩
    else .ok normalised

/-! ## Keys -/

/-- A key with a newline behind it. -/
def NearMiss (p : String) : Prop := ∃ q, IsPubkey q ∧ p = q ++ "\n"

theorem NearMiss.not_isPubkey {p : String} (h : NearMiss p) : ¬ IsPubkey p := by
  obtain ⟨q, hq, rfl⟩ := h
  intro hp
  have hlength := hp.1
  rw [String.toList_append, List.length_append, hq.1] at hlength
  exact absurd hlength (by decide)

/-- **What the pattern matches**: a key, or one with a newline behind it. -/
theorem hex64Match_iff {p : String} : hex64Match p = true ↔ IsPubkey p ∨ NearMiss p := by
  have hsplit := List.take_append_drop 64 p.toList
  simp only [hex64Match, Bool.and_eq_true, Bool.or_eq_true, decide_eq_true_eq, List.all_eq_true]
  constructor
  · rintro ⟨⟨hlength, hhex⟩, hrest | hrest⟩
    · rw [hrest, List.append_nil] at hsplit
      rw [hsplit] at hlength hhex
      exact Or.inl ⟨hlength, hhex⟩
    · refine Or.inr ⟨String.ofList (p.toList.take 64), ⟨?_, ?_⟩, ?_⟩
      · rwa [String.toList_ofList]
      · rwa [String.toList_ofList]
      · rw [hrest] at hsplit
        rw [← String.toList_inj, String.toList_append, String.toList_ofList]
        exact hsplit.symm
  · rintro (⟨hlength, hhex⟩ | ⟨q, ⟨hlength, hhex⟩, rfl⟩)
    · rw [List.take_of_length_le hlength.le, List.drop_of_length_le hlength.le]
      exact ⟨⟨hlength, hhex⟩, Or.inl rfl⟩
    · rw [String.toList_append, List.take_append_of_le_length hlength.ge, List.take_of_length_le hlength.le,
        List.drop_append_of_le_length hlength.ge, List.drop_of_length_le hlength.le, List.nil_append]
      exact ⟨⟨hlength, hhex⟩, Or.inr rfl⟩

/-! ## What is collected -/

section
variable {read : Reading} {keep : Pubkey → Bool} {tags : List PyValue}

/-- The values of the tags that are not passed over. -/
def qualifying (read : Reading) (tags : List PyValue) : List String := tags.filterMap fun tag => (read tag).join

theorem qualifying_skip {tag : PyValue} (h : read tag = some none) :
    qualifying read (tag :: tags) = qualifying read tags := by
  simp [qualifying, h]

theorem qualifying_read {tag : PyValue} {value : String} (h : read tag = some (some value)) :
    qualifying read (tag :: tags) = value :: qualifying read tags := by
  simp [qualifying, h]

/-- What the loop asks of a key. -/
def accepts (keep : Pubkey → Bool) (p : Pubkey) : Bool := hex64Match p && keep p

theorem accepts_iff {p : Pubkey} : accepts keep p = true ↔ hex64Match p = true ∧ keep p = true := Bool.and_eq_true_iff

theorem gather_skip {tag : PyValue} {seen : List Pubkey} (h : read tag = some none) :
    gather read keep (tag :: tags) seen = gather read keep tags seen := by
  rw [gather, h, Option.bind_some]

theorem gather_take {tag : PyValue} {value : String} {seen : List Pubkey} (h : read tag = some (some value))
    (hkeep : accepts keep (lower value) = true) :
    gather read keep (tag :: tags) seen = gather read keep tags (Conc.addNew seen (lower value)) := by
  rw [accepts_iff] at hkeep
  rw [gather, h, Option.bind_some, Conc.addNew]
  dsimp only
  split_ifs with hskip hmem hmem
  · rfl
  · exact absurd hskip (by simp [hmem, hkeep.1, hkeep.2])
  · exact absurd hskip (by simp [hmem])
  · rfl

theorem gather_refuse {tag : PyValue} {value : String} {seen : List Pubkey} (h : read tag = some (some value))
    (hkeep : ¬ accepts keep (lower value) = true) :
    gather read keep (tag :: tags) seen = gather read keep tags seen := by
  rw [accepts_iff, not_and_or, Bool.not_eq_true, Bool.not_eq_true] at hkeep
  rw [gather, h, Option.bind_some]
  exact if_pos (by rcases hkeep with hkeep | hkeep <;> simp [hkeep])

/-- **What the loop collects.** -/
theorem gather_eq : ∀ {tags : List PyValue} {seen out : List Pubkey}, gather read keep tags seen = some out →
    out = (((qualifying read tags).map lower).filter (accepts keep)).foldl Conc.addNew seen := by
  intro tags
  induction tags with
  | nil =>
    intro seen out h
    exact (Option.some.inj h).symm
  | cons tag tags ih =>
    intro seen out h
    rcases htag : read tag with _ | _ | value
    · rw [gather, htag] at h
      cases h
    · rw [gather_skip htag] at h
      rw [qualifying_skip htag]
      exact ih h
    · rw [qualifying_read htag, List.map_cons]
      by_cases hkeep : accepts keep (lower value) = true
      · rw [gather_take htag hkeep] at h
        rw [List.filter_cons_of_pos hkeep, List.foldl_cons]
        exact ih h
      · rw [gather_refuse htag hkeep] at h
        rw [List.filter_cons_of_neg hkeep]
        exact ih h

/-- **The list that is meant**: keys only, no key twice, in the order in which they came
    first, and all the keys among the values, lowercased, that are asked for. -/
structure Canonical (values : List String) (keep : Pubkey → Bool) (out : List Pubkey) : Prop where
  canonical : ∀ p ∈ out, IsPubkey p
  nodup : out.Nodup
  ordered : out.Pairwise fun a b => (values.map lower).idxOf a < (values.map lower).idxOf b
  exact : ∀ p, p ∈ out ↔ p ∈ values.map lower ∧ IsPubkey p ∧ keep p = true

/-- **What is collected is the list that is meant** just if no value that is asked for is a
    key with a newline behind it. -/
theorem canonical_iff {out : List Pubkey} (h : gather read keep tags [] = some out) :
    Canonical (qualifying read tags) keep out ↔
      ∀ value ∈ qualifying read tags, keep (lower value) = true → ¬ NearMiss (lower value) := by
  have hout : out = Conc.firsts (((qualifying read tags).map lower).filter (accepts keep)) :=
    gather_eq h
  have hmem : ∀ p, p ∈ out ↔ p ∈ (qualifying read tags).map lower ∧ hex64Match p = true ∧ keep p = true := by
    intro p
    rw [hout, Conc.mem_firsts, List.mem_filter, accepts_iff]
  constructor
  · intro hcanon value hvalue hkeep hmiss
    refine hmiss.not_isPubkey (hcanon.canonical _ ((hmem _).2 ⟨List.mem_map_of_mem hvalue, ?_, hkeep⟩))
    exact hex64Match_iff.2 (Or.inr hmiss)
  · intro hno
    have hkey : ∀ p ∈ out, IsPubkey p := by
      intro p hp
      obtain ⟨hvalues, hmatch, hkeep⟩ := (hmem p).1 hp
      obtain ⟨value, hvalue, rfl⟩ := List.mem_map.1 hvalues
      exact (hex64Match_iff.1 hmatch).resolve_right (hno value hvalue hkeep)
    refine ⟨hkey, hout ▸ Conc.nodup_firsts _, hout ▸ Conc.ordered_firsts _ _, fun p => ?_⟩
    constructor
    · exact fun hp => ⟨((hmem p).1 hp).1, hkey p hp, ((hmem p).1 hp).2.2⟩
    · exact fun hp => (hmem p).2 ⟨hp.1, hex64Match_iff.2 (Or.inl hp.2.1), hp.2.2⟩

end

theorem pTagValue_p (value : String) : pTagValue (.list [.str "p", .str value]) = some (some value) := rfl

/-- What is read of a tag that is a list of values. -/
theorem pTagValue_list (tag : Tag) :
    pTagValue (.list tag) = some (if isNamed "p" tag then value? tag else none) := by
  cases tag with
  | nil => rfl
  | cons name rest =>
    have hvalue : rest.head?.bind str? = value? (name :: rest) := by
      rw [value?, List.getElem?_cons_succ, List.head?_eq_getElem?]
    have hnamed : isNamed "p" (name :: rest) = decide (str? name = some "p") := rfl
    rw [← hvalue, hnamed]
    simp [pTagValue, PyValue.truthy]

/-- **Of tags that are lists**, this is what the graph's handlers are given. -/
theorem pTagPubkeysJson_lists {tags : List Tag} {out : List Pubkey}
    (h : pTagPubkeysJson (tags.map .list) = some out) : out = pTagPubkeys tags := by
  have hvalues : qualifying pTagValue (tags.map .list) = tagValues tags "p" := by
    rw [qualifying, tagValues, List.filterMap_map, List.filterMap_filter]
    refine List.filterMap_congr fun tag _ => ?_
    rw [Function.comp_apply, pTagValue_list, Option.join_some]
  have hfilter : accepts (fun _ => true) = hex64Match := funext fun p => Bool.and_true _
  rw [gather_eq h, hvalues, hfilter, pTagPubkeys, ← Conc.firsts_eq_eraseDups]
  rfl

/-- What `validate_pubkey` returns. -/
theorem validatePubkey_eq_ok {value : PyValue} {fieldName : String} {p : Pubkey} :
    validatePubkey value fieldName = .ok p ↔ ∃ s, value = .str s ∧ hex64Match (lower s) = true ∧ p = lower s := by
  cases value with
  | str s =>
    have hread : validatePubkey (.str s) fieldName = if !hex64Match (lower s) then
        .error ⟨422, fieldName ++ " is not a valid 64-character lowercase hex pubkey"⟩ else .ok (lower s) := rfl
    rw [hread]
    constructor
    · intro h
      split_ifs at h with hmatch
      exact ⟨s, rfl, by simpa using hmatch, (Except.ok.inj h).symm⟩
    · rintro ⟨s', hs, hmatch, rfl⟩
      cases hs
      rw [if_neg (by simp [hmatch])]
  | none | bool | int | float | list | dict =>
    constructor
    · intro h
      cases h
    · rintro ⟨s, hs, -⟩
      cases hs

/-- **Near misses are let in.**  Each of the three readers does what it is meant to do just
    if no value it reads (and asks for) is, lowercased, a key with a newline behind it. -/
theorem readers_canonical (tags : List PyValue) (observer : String) (value : PyValue) (fieldName : String) :
    (∀ out, pTagPubkeysJson tags = some out →
      (Canonical (qualifying pTagValue tags) (fun _ => true) out ↔
        ∀ v ∈ qualifying pTagValue tags, ¬ NearMiss (lower v))) ∧
    (∀ out, parseDesignatedPubkeys tags observer = some out →
      (Canonical (qualifying designationValue tags) (· ≠ observer) out ↔
        ∀ v ∈ qualifying designationValue tags, lower v ≠ observer → ¬ NearMiss (lower v))) ∧
    ((∀ p, validatePubkey value fieldName = .ok p → IsPubkey p) ↔ ∀ s, value = .str s → ¬ NearMiss (lower s)) := by
  refine ⟨fun out h => ?_, fun out h => ?_, ?_⟩
  · simpa using canonical_iff h
  · simpa using canonical_iff h
  · constructor
    · intro h s hs hmiss
      exact hmiss.not_isPubkey (h _ (validatePubkey_eq_ok.2 ⟨s, hs, hex64Match_iff.2 (Or.inr hmiss), rfl⟩))
    · intro h p hp
      obtain ⟨s, hs, hmatch, rfl⟩ := validatePubkey_eq_ok.1 hp
      exact (hex64Match_iff.1 hmatch).resolve_right (h s hs)

theorem isPubkey_sampleKey {c : Char} (h : isHexDigit c = true) : IsPubkey (sampleKey c) := by
  rw [IsPubkey, sampleKey, String.toList_ofList]
  exact ⟨List.length_replicate, fun d hd => (List.eq_of_mem_replicate hd).symm ▸ h⟩

theorem lower_sampleKey (c : Char) : lower (sampleKey c) = sampleKey c.toLower := by
  rw [lower, sampleKey, String.toList_ofList, List.map_replicate, sampleKey]

theorem designationValue_rank (value : String) :
    designationValue (.list [.str "30382:rank", .str value]) = some (some value) := by
  have hname : designationTagName "30382:rank" = true := rfl
  simp [designationValue, str?, hname]

/-- A key with a newline behind it. -/
def sampleMiss : String := sampleKey 'a' ++ "\n"

theorem nearMiss_sampleMiss : NearMiss sampleMiss := ⟨sampleKey 'a', isPubkey_sampleKey (by decide), rfl⟩

theorem lower_sampleMiss : lower sampleMiss = sampleMiss := by
  have hkey : (sampleKey 'a').toList.map Char.toLower = (sampleKey 'a').toList := by
    rw [sampleKey, String.toList_ofList, List.map_replicate]
    rfl
  rw [← String.toList_inj, lower, String.toList_ofList, sampleMiss, String.toList_append, List.map_append, hkey]
  rfl

/-- All three readers let it in. -/
theorem sampleMiss_let_in :
    (∃ out, pTagPubkeysJson [.list [.str "p", .str sampleMiss]] = some out ∧
      ¬ Canonical (qualifying pTagValue [.list [.str "p", .str sampleMiss]]) (fun _ => true) out) ∧
    (∃ out, parseDesignatedPubkeys [.list [.str "30382:rank", .str sampleMiss]] (sampleKey 'b') = some out ∧
      ¬ Canonical (qualifying designationValue [.list [.str "30382:rank", .str sampleMiss]]) (· ≠ sampleKey 'b')
        out) ∧
    ∃ p, validatePubkey (.str sampleMiss) "pubkey" = .ok p ∧ ¬ IsPubkey p := by
  have hmatch : hex64Match (lower sampleMiss) = true := by
    rw [lower_sampleMiss]
    exact hex64Match_iff.2 (Or.inr nearMiss_sampleMiss)
  have hout : ∀ {read : Reading} {keep : Pubkey → Bool} {tag : PyValue}, read tag = some (some sampleMiss) →
      keep (lower sampleMiss) = true → gather read keep [tag] [] = some [sampleMiss] := by
    intro read keep tag htag hkeep
    rw [gather_take htag (accepts_iff.2 ⟨hmatch, hkeep⟩), gather, lower_sampleMiss, Conc.addNew,
      if_neg List.not_mem_nil, List.nil_append]
  have hnot : ∀ {values : List String} {keep : Pubkey → Bool}, ¬ Canonical values keep [sampleMiss] :=
    fun h => nearMiss_sampleMiss.not_isPubkey (h.canonical _ (List.mem_singleton_self _))
  have hother : lower sampleMiss ≠ sampleKey 'b' := by
    rw [lower_sampleMiss]
    exact fun h => nearMiss_sampleMiss.not_isPubkey (h ▸ isPubkey_sampleKey (by decide))
  refine ⟨⟨[sampleMiss], hout (pTagValue_p sampleMiss) rfl, hnot⟩,
    ⟨[sampleMiss], hout (designationValue_rank sampleMiss) (decide_eq_true hother), hnot⟩, sampleMiss, ?_,
    nearMiss_sampleMiss.not_isPubkey⟩
  exact validatePubkey_eq_ok.2 ⟨sampleMiss, rfl, hmatch, lower_sampleMiss.symm⟩

theorem not_nearMiss_sampleKey {c : Char} (h : isHexDigit c.toLower = true) : ¬ NearMiss (lower (sampleKey c)) :=
  fun hmiss => hmiss.not_isPubkey (lower_sampleKey c ▸ isPubkey_sampleKey h)

theorem sampleKey_ne {c d : Char} (h : c ≠ d) : sampleKey c ≠ sampleKey d := by
  rw [sampleKey, sampleKey, Ne, String.ofList_inj, List.replicate_inj]
  exact fun hc => h (hc.2.resolve_left (by decide))

theorem accepts_sampleKey {keep : Pubkey → Bool} {c : Char} (h : isHexDigit c.toLower = true)
    (hkeep : keep (sampleKey c.toLower) = true) : accepts keep (lower (sampleKey c)) = true := by
  rw [lower_sampleKey, accepts_iff]
  exact ⟨hex64Match_iff.2 (Or.inl (isPubkey_sampleKey h)), hkeep⟩

/-- A key in both cases, other tags, a designation of `b` in upper case and one of `c`. -/
def sampleTags : List PyValue :=
  [.list [.str "p", .str (sampleKey 'A')], .list [.str "30382:rank", .str (sampleKey 'B')],
    .list [.str "p", .str (sampleKey 'a')], .list [.str "e", .str (sampleKey 'c')],
    .list [.str "p", .str (sampleKey 'b')], .list [.str "30382:rank", .str (sampleKey 'c')],
    .list [.str "p", .str "npub"], .list []]

/-- `p_tag_pubkeys` collects `a` once, then `b`; `parse_designated_pubkeys` skips the
    observer's own designation; `validate_pubkey` lowers the case. -/
theorem sampleTags_canonical :
    Canonical (qualifying pTagValue sampleTags) (fun _ => true) [sampleKey 'a', sampleKey 'b'] ∧
      Canonical (qualifying designationValue sampleTags) (· ≠ sampleKey 'b') [sampleKey 'c'] ∧
      validatePubkey (.str (sampleKey 'A')) "pubkey" = .ok (sampleKey 'a') ∧ IsPubkey (sampleKey 'a') := by
  obtain ⟨hp, hdesignation, hvalidate⟩ :=
    readers_canonical sampleTags (sampleKey 'b') (.str (sampleKey 'A')) "pubkey"
  have hnpub : ¬ accepts (fun _ => true) (lower "npub") = true := by decide
  have hpTags : pTagPubkeysJson sampleTags = some [sampleKey 'a', sampleKey 'b'] := by
    rw [pTagPubkeysJson, sampleTags, gather_take (pTagValue_p _) (accepts_sampleKey rfl rfl), gather_skip rfl,
      gather_take (pTagValue_p _) (accepts_sampleKey rfl rfl), gather_skip rfl,
      gather_take (pTagValue_p _) (accepts_sampleKey rfl rfl), gather_skip rfl,
      gather_refuse (pTagValue_p _) hnpub, gather_skip rfl, gather]
    simp only [lower_sampleKey]
    show some (Conc.addNew (Conc.addNew [sampleKey 'a'] (sampleKey 'a')) (sampleKey 'b')) = _
    simp [Conc.addNew, sampleKey_ne]
  have hdesignated : parseDesignatedPubkeys sampleTags (sampleKey 'b') = some [sampleKey 'c'] := by
    have hother : (decide (sampleKey 'c' ≠ sampleKey 'b')) = true := decide_eq_true (sampleKey_ne (by decide))
    have hown : ¬ accepts (· ≠ sampleKey 'b') (lower (sampleKey 'B')) = true := by
      rw [lower_sampleKey, accepts_iff]
      exact fun h => of_decide_eq_true h.2 rfl
    rw [parseDesignatedPubkeys, sampleTags, gather_skip rfl, gather_refuse (designationValue_rank _) hown,
      gather_skip rfl, gather_skip rfl, gather_skip rfl,
      gather_take (designationValue_rank _) (accepts_sampleKey rfl hother), gather_skip rfl, gather_skip rfl, gather,
      lower_sampleKey]
    rfl
  have hread : validatePubkey (.str (sampleKey 'A')) "pubkey" = .ok (sampleKey 'a') := by
    have haccepts : accepts (fun _ => true) (lower (sampleKey 'A')) = true := accepts_sampleKey rfl rfl
    exact validatePubkey_eq_ok.2 ⟨_, rfl, (accepts_iff.1 haccepts).1, (lower_sampleKey 'A').symm⟩
  refine ⟨(hp _ hpTags).2 ?_, (hdesignation _ hdesignated).2 ?_, hread, ?_⟩
  · rw [sampleTags, qualifying_read (pTagValue_p _), qualifying_skip rfl, qualifying_read (pTagValue_p _),
      qualifying_skip rfl, qualifying_read (pTagValue_p _), qualifying_skip rfl, qualifying_read (pTagValue_p _),
      qualifying_skip rfl]
    simp only [List.forall_mem_cons, qualifying, List.filterMap_nil, List.not_mem_nil, false_imp_iff, implies_true,
      and_true]
    refine ⟨not_nearMiss_sampleKey rfl, not_nearMiss_sampleKey rfl, not_nearMiss_sampleKey rfl, ?_⟩
    exact fun h => hnpub (accepts_iff.2 ⟨hex64Match_iff.2 (Or.inr h), rfl⟩)
  · rw [sampleTags, qualifying_skip rfl, qualifying_read (designationValue_rank _), qualifying_skip rfl,
      qualifying_skip rfl, qualifying_skip rfl, qualifying_read (designationValue_rank _), qualifying_skip rfl,
      qualifying_skip rfl]
    simp only [List.forall_mem_cons, qualifying, List.filterMap_nil, List.not_mem_nil, false_imp_iff, implies_true,
      and_true]
    exact ⟨fun _ => not_nearMiss_sampleKey rfl, fun _ => not_nearMiss_sampleKey rfl⟩
  · refine hvalidate.2 (fun s hs => ?_) _ hread
    cases hs
    exact not_nearMiss_sampleKey rfl

end Graph

end BrainstormServer
