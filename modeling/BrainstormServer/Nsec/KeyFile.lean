/-
  The key file and the cipher (`app/utils/encryption.py`).

  The file holds the keys of a `MultiFernet`, joined by commas, the primary one
  first.  Texts are lists of characters, as Python's are.  Fernet itself is not
  part of the repository: it is a parameter (`Fernet`) with what its
  documentation promises, that a token decrypts under the key that made it and
  under no other.

  `readKeys_joinKeys` is the round trip of the file: keys of the shape
  `IsKeyText` are read back as they were written, and every key ever read from
  a file has that shape (`isKeyText_of_mem_readKeys`).
-/
import BrainstormServer.Python
import Mathlib.Data.List.DropRight
import Mathlib.Tactic.Common

namespace BrainstormServer

namespace Nsec

/-- A Python string. -/
abbrev Text := List Char

/-! ## The text of the file -/

/-- `str.isspace` of one character: what `str.strip` takes off. -/
def isSpace (c : Char) : Bool :=
  (0x09 ≤ c.toNat ∧ c.toNat ≤ 0x0d) ∨ (0x1c ≤ c.toNat ∧ c.toNat ≤ 0x20) ∨ c.toNat = 0x85 ∨
    c.toNat = 0xa0 ∨ c.toNat = 0x1680 ∨ (0x2000 ≤ c.toNat ∧ c.toNat ≤ 0x200a) ∨
    c.toNat = 0x2028 ∨ c.toNat = 0x2029 ∨ c.toNat = 0x202f ∨ c.toNat = 0x205f ∨ c.toNat = 0x3000

/-- `str.strip`. -/
def strip (t : Text) : Text := (t.dropWhile isSpace).rdropWhile isSpace

/-- `_parse_keys`. -/
def parseKeys (raw : Text) : List Text := ((raw.splitOn ',').map strip).filter (· ≠ [])

/-- `read_keys_from_file`, given the text of the file; `none` if there is no file. -/
def readKeys : Option Text → List Text
  | none => []
  | some text => if strip text = [] then [] else parseKeys (strip text)

/-- What `write_keys_to_file` writes. -/
def joinKeys (keys : List Text) : Text := [','].intercalate keys

/-- Neither end of a text is white space. -/
def Trimmed (t : Text) : Prop :=
  (∀ c ∈ t.head?, isSpace c = false) ∧ ∀ c ∈ t.getLast?, isSpace c = false

/-- The shape of a key that survives the file. -/
structure IsKeyText (t : Text) : Prop where
  ne_nil : t ≠ []
  no_comma : ',' ∉ t
  trimmed : Trimmed t

theorem trimmed_strip (t : Text) : Trimmed (strip t) := by
  constructor
  · intro c hc
    -- the front of the stripped text is the front of the text without leading space
    obtain ⟨u, hu⟩ := List.rdropWhile_prefix isSpace (t.dropWhile isSpace)
    have hd : (t.dropWhile isSpace).head? = some c := by
      rw [← hu, List.head?_append, show ((t.dropWhile isSpace).rdropWhile isSpace).head? = some c
        from hc]
      rfl
    have hn := List.head?_dropWhile_not isSpace t
    rw [hd] at hn
    simpa using hn
  · intro c hc
    have hne : strip t ≠ [] := by
      intro h
      rw [h] at hc
      cases hc
    rw [List.getLast?_eq_some_getLast hne] at hc
    have hl := List.rdropWhile_last_not isSpace (t.dropWhile isSpace) hne
    have hcl : (strip t).getLast hne = c := Option.some.inj hc
    rw [← hcl]
    exact Bool.eq_false_iff.2 hl

theorem Trimmed.strip_eq {t : Text} (h : Trimmed t) : strip t = t := by
  have hd : t.dropWhile isSpace = t := by
    cases t with
    | nil => rfl
    | cons c t => rw [List.dropWhile_cons_of_neg (by simpa using h.1 c rfl)]
  unfold strip
  rw [hd, List.rdropWhile_eq_self_iff]
  intro hne
  simpa using h.2 _ (List.getLast?_eq_some_getLast hne)

theorem mem_of_mem_strip {t : Text} {c : Char} (h : c ∈ strip t) : c ∈ t :=
  (List.dropWhile_suffix _).subset ((List.rdropWhile_prefix _ _).subset h)

/-- Every key read from a file has the shape of a key. -/
theorem isKeyText_of_mem_readKeys {file : Option Text} {k : Text} (h : k ∈ readKeys file) :
    IsKeyText k := by
  cases file with
  | none => cases h
  | some text =>
    simp only [readKeys, parseKeys] at h
    split_ifs at h
    · cases h
    · obtain ⟨hmem, hne⟩ := List.mem_filter.1 h
      obtain ⟨piece, hpiece, rfl⟩ := List.mem_map.1 hmem
      exact ⟨by simpa using hne, fun hc => not_mem_of_mem_splitOn hpiece (mem_of_mem_strip hc),
        trimmed_strip piece⟩

theorem joinKeys_cons_cons (k k' : Text) (ks : List Text) :
    joinKeys (k :: k' :: ks) = k ++ ',' :: joinKeys (k' :: ks) := by
  simp [joinKeys, List.intercalate_cons_cons]

theorem trimmed_joinKeys : ∀ {ks : List Text}, (∀ k ∈ ks, IsKeyText k) → Trimmed (joinKeys ks)
  | [], _ => by simp [joinKeys, Trimmed]
  | [k], h => by simpa [joinKeys] using (h k List.mem_cons_self).trimmed
  | k :: k' :: ks, h => by
    have hk := h k List.mem_cons_self
    have ih := trimmed_joinKeys fun x hx => h x (List.mem_cons_of_mem k hx)
    rw [joinKeys_cons_cons]
    constructor
    · intro c hc
      rw [List.head?_append_of_ne_nil _ hk.ne_nil] at hc
      exact hk.trimmed.1 c hc
    · intro c hc
      rw [List.getLast?_append, List.getLast?_cons] at hc
      cases hl : (joinKeys (k' :: ks)).getLast? with
      | none =>
        rw [hl] at hc
        have : c = ',' := by simpa [eq_comm] using hc
        subst this
        decide
      | some c' =>
        rw [hl] at hc
        have hcc : c' = c := by simpa using hc
        exact ih.2 c (hcc ▸ hl)

/-- **The keys written to the file are the keys read from it.** -/
theorem readKeys_joinKeys {ks : List Text} (h : ∀ k ∈ ks, IsKeyText k) :
    readKeys (some (joinKeys ks)) = ks := by
  simp only [readKeys]
  rw [(trimmed_joinKeys h).strip_eq]
  rcases ks with - | ⟨k, ks⟩
  · rfl
  · have hne : joinKeys (k :: ks) ≠ [] := by
      cases ks with
      | nil => simpa [joinKeys] using (h k List.mem_cons_self).ne_nil
      | cons k' ks => simp [joinKeys_cons_cons]
    rw [if_neg hne]
    unfold parseKeys joinKeys
    rw [List.splitOn_intercalate ',' (fun l hl => (h l hl).no_comma) (by simp)]
    have hmap : (k :: ks).map strip = k :: ks := by
      refine (List.map_congr_left fun x hx => ?_).trans (List.map_id _)
      exact (h x hx).trimmed.strip_eq
    rw [hmap, List.filter_eq_self]
    exact fun x hx => by simpa using (h x hx).ne_nil

/-! ## The cipher -/

/-- `cryptography.fernet.Fernet`: `ofText` is the key a text spells (`none`
    where the constructor raises `ValueError`), and `r` is what `encrypt` draws
    (the initialisation vector and the time). -/
structure Fernet (Key : Type) where
  ofText : Text → Option Key
  encrypt : Key → ℕ → Text → Text
  decrypt : Key → Text → Option Text
  decrypt_encrypt : ∀ k r m, decrypt k (encrypt k r m) = some m
  key_unique : ∀ {k k' t m m'}, decrypt k t = some m → decrypt k' t = some m' → k' = k

/-- `Fernet.generate_key`: url-safe base64 text that spells a key. -/
structure GeneratedKey {Key : Type} (F : Fernet Key) where
  text : Text
  ne_nil : text ≠ []
  urlsafe : ∀ c ∈ text, c.isAlphanum = true ∨ c ∈ ['-', '_', '=']
  spells : (F.ofText text).isSome

/-- `MultiFernet`: it has a primary key. -/
structure MultiFernet (Key : Type) where
  primary : Key
  others : List Key

/-- Texts of the url-safe alphabet have the shape of a key. -/
theorem GeneratedKey.isKeyText {Key : Type} {F : Fernet Key} (k : GeneratedKey F) :
    IsKeyText k.text := by
  have hplain : ∀ c ∈ k.text, c ≠ ',' ∧ isSpace c = false := by
    intro c hc
    rcases k.urlsafe c hc with h | h
    · delta Char.isAlphanum Char.isAlpha Char.isUpper Char.isLower Char.isDigit at h
      simp only [Bool.or_eq_true, Bool.and_eq_true, decide_eq_true_eq, ge_iff_le,
        UInt32.le_iff_toNat_le] at h
      constructor
      · rintro rfl
        simp at h
      · have hn : c.toNat = c.val.toNat := rfl
        simp only [isSpace, decide_eq_false_iff_not, hn]
        simp at h
        omega
    · simp only [List.mem_cons, List.not_mem_nil, or_false] at h
      rcases h with rfl | rfl | rfl <;> decide
  refine ⟨k.ne_nil, fun hc => (hplain _ hc).1 rfl, fun c hc => ?_, fun c hc => ?_⟩
  · exact (hplain c (List.mem_of_mem_head? hc)).2
  · exact (hplain c (List.mem_of_mem_getLast? hc)).2

namespace Fernet

variable {Key : Type} (F : Fernet Key)

/-- `MultiFernet([Fernet(k) for k in keys])`; `none` where it raises
    `ValueError`, on a text that is no key and on no keys at all. -/
def multiFernet (keys : List Text) : Option (MultiFernet Key) :=
  match keys.mapM F.ofText with
  | some (k :: ks) => some ⟨k, ks⟩
  | _ => none

/-- `MultiFernet.encrypt`: under the primary key. -/
def encryptMulti (mf : MultiFernet Key) (r : ℕ) (plaintext : Text) : Text :=
  F.encrypt mf.primary r plaintext

/-- `MultiFernet.decrypt`: the first key that fits; `none` is `InvalidToken`. -/
def decryptMulti (mf : MultiFernet Key) (token : Text) : Option Text :=
  (mf.primary :: mf.others).findSome? (F.decrypt · token)

/-- What a token decrypts to under a list of key texts. -/
def opens (keys : List Text) (token : Text) : Option Text :=
  (F.multiFernet keys).bind (F.decryptMulti · token)

variable {F}

theorem mapM_ofText : ∀ {keys : List Text} {ks : List Key},
    keys.mapM F.ofText = some ks ↔ keys.map F.ofText = ks.map some
  | [], ks => by cases ks <;> simp
  | k :: keys, ks => by
    cases h : F.ofText k with
    | none => cases ks <;> simp [List.mapM_cons, h]
    | some key =>
      rw [List.mapM_cons, h]
      change (keys.mapM F.ofText).bind (fun l => some (key :: l)) = some ks ↔ _
      rw [Option.bind_eq_some_iff]
      constructor
      · rintro ⟨l, hl, ⟨⟩⟩
        simp [h, mapM_ofText.1 hl]
      · intro hk
        cases ks with
        | nil => simp at hk
        | cons key' ks =>
          simp only [List.map_cons, h, List.cons.injEq, Option.some.injEq] at hk
          exact ⟨ks, mapM_ofText.2 hk.2, by rw [hk.1]⟩

theorem multiFernet_eq_some {keys : List Text} {mf : MultiFernet Key} :
    F.multiFernet keys = some mf ↔ keys.map F.ofText = (mf.primary :: mf.others).map some := by
  rw [← mapM_ofText]
  unfold multiFernet
  split
  · rename_i k ks hks
    rw [hks]
    constructor
    · rintro ⟨⟩
      rfl
    · rintro ⟨⟩
      rfl
  · rename_i hks
    constructor
    · rintro ⟨⟩
    · exact fun h => absurd h (hks _ _)

theorem multiFernet_spells {keys : List Text} {mf : MultiFernet Key}
    (h : F.multiFernet keys = some mf) : ∀ k ∈ keys, (F.ofText k).isSome := by
  intro k hk
  obtain ⟨key, -, hkey⟩ := List.mem_map.1 (multiFernet_eq_some.1 h ▸ List.mem_map_of_mem hk)
  simp [← hkey]

theorem exists_multiFernet {keys : List Text} (hne : keys ≠ [])
    (h : ∀ k ∈ keys, (F.ofText k).isSome) : ∃ mf, F.multiFernet keys = some mf := by
  have hall : ∀ {l : List Text}, (∀ k ∈ l, (F.ofText k).isSome) →
      l.map F.ofText = (l.filterMap F.ofText).map some := by
    intro l hl
    induction l with
    | nil => rfl
    | cons x l ih =>
      obtain ⟨y, hy⟩ := Option.isSome_iff_exists.1 (hl x List.mem_cons_self)
      simp [hy, ih fun z hz => hl z (List.mem_cons_of_mem _ hz)]
  cases keys with
  | nil => exact absurd rfl hne
  | cons k keys =>
    obtain ⟨key, hkey⟩ := Option.isSome_iff_exists.1 (h k List.mem_cons_self)
    refine ⟨⟨key, keys.filterMap F.ofText⟩, multiFernet_eq_some.2 ?_⟩
    simp [hkey, hall fun z hz => h z (List.mem_cons_of_mem _ hz)]

theorem decryptMulti_eq_some {mf : MultiFernet Key} {token m : Text} :
    F.decryptMulti mf token = some m ↔
      ∃ key ∈ mf.primary :: mf.others, F.decrypt key token = some m := by
  constructor
  · exact List.exists_of_findSome?_eq_some
  · rintro ⟨key, hkey, hm⟩
    -- the first key that fits is the one that made the token
    have hsome : (F.decryptMulti mf token).isSome :=
      List.findSome?_isSome_iff.2 ⟨key, hkey, Option.isSome_iff_exists.2 ⟨m, hm⟩⟩
    obtain ⟨m', hm'⟩ := Option.isSome_iff_exists.1 hsome
    obtain ⟨key', -, hkey'⟩ := List.exists_of_findSome?_eq_some hm'
    have hk : key' = key := F.key_unique hm hkey'
    rw [hm', ← hkey', hk, hm]

/-- A token decrypts under a list of keys if one of them made it, and all of
    them are keys. -/
theorem opens_eq_some {keys : List Text} {token m : Text} : F.opens keys token = some m ↔
    (∀ k ∈ keys, (F.ofText k).isSome) ∧
      ∃ k ∈ keys, ∃ key, F.ofText k = some key ∧ F.decrypt key token = some m := by
  constructor
  · intro h
    obtain ⟨mf, hmf, hdec⟩ := Option.bind_eq_some_iff.1 h
    obtain ⟨key, hkey, hm⟩ := decryptMulti_eq_some.1 hdec
    refine ⟨multiFernet_spells hmf, ?_⟩
    obtain ⟨k, hk, hk'⟩ := List.mem_map.1
      ((multiFernet_eq_some.1 hmf).symm ▸ List.mem_map_of_mem hkey)
    exact ⟨k, hk, key, hk', hm⟩
  · rintro ⟨hall, k, hk, key, hkey, hm⟩
    obtain ⟨mf, hmf⟩ := exists_multiFernet (List.ne_nil_of_mem hk) hall
    have hmem : some key ∈ (mf.primary :: mf.others).map some := by
      rw [← multiFernet_eq_some.1 hmf, ← hkey]
      exact List.mem_map_of_mem hk
    exact Option.bind_eq_some_iff.2
      ⟨mf, hmf, decryptMulti_eq_some.2 ⟨key, by simpa using hmem, hm⟩⟩

/-- What a token decrypts to does not depend on the keys. -/
theorem opens_unique {keys keys' : List Text} {token m m' : Text}
    (h : F.opens keys token = some m) (h' : F.opens keys' token = some m') : m' = m := by
  obtain ⟨-, k, -, key, -, hm⟩ := opens_eq_some.1 h
  obtain ⟨-, k', -, key', -, hm'⟩ := opens_eq_some.1 h'
  cases F.key_unique hm hm'
  rw [hm] at hm'
  exact (Option.some.inj hm').symm

/-- More keys open no less. -/
theorem opens_mono {keys keys' : List Text} {token m : Text} (h : F.opens keys token = some m)
    (hsub : keys ⊆ keys') (hall : ∀ k ∈ keys', (F.ofText k).isSome) :
    F.opens keys' token = some m := by
  obtain ⟨-, k, hk, hkey⟩ := opens_eq_some.1 h
  exact opens_eq_some.2 ⟨hall, k, hsub hk, hkey⟩

/-- The primary key opens what `encrypt` makes. -/
theorem opens_encryptMulti {k : Text} {keys : List Text} {mf : MultiFernet Key}
    (hmf : F.multiFernet (k :: keys) = some mf) (r : ℕ) (m : Text) :
    F.opens [k] (F.encryptMulti mf r m) = some m := by
  have hk : F.ofText k = some mf.primary := by
    have := multiFernet_eq_some.1 hmf
    simp only [List.map_cons, List.cons.injEq] at this
    exact this.1
  refine opens_eq_some.2 ⟨fun x hx => ?_, k, List.mem_cons_self, mf.primary, hk,
    F.decrypt_encrypt _ _ _⟩
  rw [List.mem_singleton.1 hx, hk]
  rfl

end Fernet

end Nsec

end BrainstormServer
