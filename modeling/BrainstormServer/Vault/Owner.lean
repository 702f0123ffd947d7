/-
  Whose row it is.

  Ownership of a row rests on four checks in two places: the path is the hash of the
  credential id, the credential id is spelled canonically, the blob names its owner
  and its passkey, and the upsert touches a row of the same owner only.

  * `Call.allowed`: what a call may send to the table, whatever its arguments;
  * `Owned` is the invariant of a row, `keeps_content` what a stranger's command
    leaves of it;
  * `row_belongs_to_owner`: both hold in every interleaving of calls, and the owner of
    a key changes only over a deletion by the owner.
-/
import BrainstormServer.Vault.Service

namespace BrainstormServer

namespace Vault

open Conc Prog

section
variable (lib : Lib)

/-- The blob is a JSON object that names this owner and this passkey. -/
def BlobOf (blob : String) (pubkey : Pubkey) (credentialId : String) : Prop :=
  ∃ record, lib.loads blob = some (.dict record) ∧ dictGet record "pubkey" = .str pubkey ∧
    dictGet record "credentialId" = .str credentialId

/-- A row under its key. -/
structure Owned (hash : String) (row : VaultRow) : Prop where
  canonical : isCanonicalB64url row.credentialId = true
  key : credentialIdHash lib row.credentialId = .ok hash
  blob : BlobOf lib row.blob row.pubkey row.credentialId

/-- What a call may send to the table. -/
def Call.allowed (call : Call) : Cmd → Prop
  | .upsert values => call.caller = some values.pubkey ∧
      isCanonicalB64url values.credentialId = true ∧
      credentialIdHash lib values.credentialId = .ok values.credentialIdHash ∧
      BlobOf lib values.blob values.pubkey values.credentialId
  | .delete hash pubkey => call = .deleteVault pubkey hash
  | _ => True

end

/-- What only the owner may change. -/
def SameContent (row row' : VaultRow) : Prop :=
  row'.credentialPublicKey = row.credentialPublicKey ∧ row'.alg = row.alg ∧ row'.blob = row.blob ∧
    row'.label = row.label ∧ row'.pubkey = row.pubkey

section
variable {lib : Lib} {settings : Settings}

/-! ## What the calls send -/

theorem validateBlob_ok {blob pubkey credentialId : String}
    (h : validateBlob lib blob pubkey credentialId = .ok ()) : BlobOf lib blob pubkey credentialId := by
  unfold validateBlob at h
  split at h
  · cases h
  · rename_i record hl
    split_ifs at h with hv hmatch
    simp only [not_or, not_not] at hmatch
    refine ⟨record, hl, ?_, ?_⟩
    · cases hp : dictGet record "pubkey" <;> simp_all [eqText]
    · cases hp : dictGet record "credentialId" <;> simp_all [eqText]
  · cases h

theorem checkPasskey_ok {args : StoreArgs} (h : checkPasskey lib args = .ok ()) :
    isCanonicalB64url args.credentialId = true ∧
      credentialIdHash lib args.credentialId = .ok args.pathHash := by
  obtain ⟨hcanon, h⟩ := check_ok h
  obtain ⟨hash, hhash, h⟩ := bind_ok h
  obtain ⟨hpath, -⟩ := check_ok h
  rw [not_not] at hcanon hpath
  exact ⟨hcanon, hpath ▸ hhash⟩

theorem uses_purely {α : Type} {P : Cmd → Prop} (x : Except VaultExn α) : (purely x).Uses P := by
  cases x with
  | ok a => trivial
  | error e => trivial

/-- What comes after a computation that needs no command may rely on its result. -/
theorem uses_purely_bind {α β : Type} {P : Cmd → Prop} {x : Except VaultExn α}
    {f : α → VaultProg β} (hf : ∀ a, x = .ok a → (f a).Uses P) : ((purely x).bind f).Uses P := by
  cases x with
  | ok a => exact hf a rfl
  | error e => trivial

theorem uses_await {β : Type} {P : Cmd → Prop} {c : Cmd} {f : c.Ans → VaultProg β} (hc : P c)
    (hf : ∀ a, (f a).Uses P) : ((await c).bind f).Uses P := ⟨hc, hf⟩

theorem uses_checkChallenge {P : Cmd → Prop} (htime : P .time) (challenge : String) :
    (checkChallenge lib settings challenge).Uses P := by
  refine (uses_purely _).bind fun x => uses_await htime fun now => ?_
  split_ifs
  · trivial
  · trivial

/-- A store sends its row and nothing else, and only if the passkey and the blob are
    in order. -/
theorem storeVault_uses {P : Cmd → Prop} (args : StoreArgs)
    (hupsert : isCanonicalB64url args.credentialId = true →
      credentialIdHash lib args.credentialId = .ok args.pathHash →
      BlobOf lib args.blob args.callerPubkey args.credentialId → P (.upsert args.values)) :
    (storeVault lib args).Uses P := by
  refine uses_purely_bind fun _ hpass => uses_purely_bind fun _ hblob =>
    uses_await ?_ fun row => ?_
  · have hcheck : checkPasskey lib args = .ok () := by
      cases hc : checkPasskey lib args with
      | ok u => rfl
      | error e =>
        rw [hc] at hpass
        cases hpass
    obtain ⟨hcanon, hhash⟩ := checkPasskey_ok hcheck
    exact hupsert hcanon hhash (validateBlob_ok hblob)
  · cases row with
    | none => trivial
    | some row => trivial

theorem openVault_uses {P : Cmd → Prop} (args : OpenArgs) (hselect : P (.selectByHash args.pathHash))
    (htime : P .time) (hused : ∀ key, P (.setUsed key))
    (hmark : ∀ signCount, P (.markUsed args.pathHash signCount)) :
    (openVault lib settings args).Uses P := by
  refine Uses.tryCatch ?_ fun e => ?_
  · refine (uses_purely _).bind fun hash => ?_
    split_ifs
    · trivial
    refine uses_await hselect fun row => ?_
    cases row with
    | none => trivial
    | some row =>
      refine Uses.bind ?_ fun verified => ?_
      · refine (uses_purely _).bind fun clientData => ?_
        exact (uses_checkChallenge htime _).bind fun _ => uses_purely _
      · split_ifs
        · trivial
        refine (uses_checkChallenge htime _).bind fun nonce => Uses.bind ?_ fun _ => ?_
        · refine uses_await (hused _) fun spent => ?_
          split_ifs
          · trivial
          · trivial
        · refine uses_await (hmark _) fun marked => ?_
          split_ifs
          · trivial
          · trivial
  · cases e with
    | assertionInvalid reason => trivial
    | _ => trivial

/-- Every call sends what it may. -/
theorem Call.prog_uses (call : Call) : (call.prog lib settings).Uses (call.allowed lib) := by
  cases call with
  | issueChallenge nonce => exact ⟨trivial, fun _ => trivial⟩
  | storeVault args =>
    exact (storeVault_uses args fun hcanon hhash hblob => ⟨rfl, hcanon, hhash, hblob⟩).bind
      fun _ => trivial
  | openVault args =>
    refine (openVault_uses args trivial trivial (fun _ => trivial) fun _ => trivial).bind fun _ => ?_
    trivial
  | deleteVault callerPubkey pathHash => exact ⟨rfl, fun _ => trivial⟩

/-! ## What a command leaves of a row -/

/-- A row is written with its key's passkey: the spelling is the one it had. -/
theorem owned_overwrite (hinj : Function.Injective lib.sha256Hex) {values : VaultValues} {row : VaultRow}
    {now : ℚ} (hrow : Owned lib values.credentialIdHash row) (hpub : row.pubkey = values.pubkey)
    (hcanon : isCanonicalB64url values.credentialId = true)
    (hkey : credentialIdHash lib values.credentialId = .ok values.credentialIdHash)
    (hblob : BlobOf lib values.blob values.pubkey values.credentialId) :
    Owned lib values.credentialIdHash (values.overwrite now row) := by
  obtain ⟨bytes, hb⟩ := decode_of_canonical hrow.canonical
  obtain ⟨bytes', hb'⟩ := decode_of_canonical hcanon
  have hhash := hrow.key
  simp only [credentialIdHash, hb, hb', Except.map, Except.ok.injEq] at hhash hkey
  have hbytes : bytes = bytes' := hinj (hhash.trans hkey.symm)
  have hid : row.credentialId = values.credentialId :=
    eq_of_canonical hrow.canonical hcanon hb (hbytes ▸ hb')
  refine ⟨hrow.canonical, hrow.key, ?_⟩
  show BlobOf lib values.blob row.pubkey row.credentialId
  rw [hpub, hid]
  exact hblob

/-- A command that its call may send keeps the rows owned. -/
theorem answer_owned (hinj : Function.Injective lib.sha256Hex) {call : Call} {st : Store} {clock : ℚ}
    {c : Cmd} (hc : call.allowed lib c) (hst : ∀ hash row, st.row hash = some row → Owned lib hash row) :
    ∀ hash row, (answer st clock c).2.row hash = some row → Owned lib hash row := by
  intro hash row hrow
  rcases answer_row st clock c hash with hsame | ⟨values, row', rfl, rfl, hup, hnew⟩ |
      ⟨signCount, row', rfl, hat, -, hnew⟩ | ⟨pubkey, row', rfl, -, -, hnew⟩
  · exact hst hash row (hsame ▸ hrow)
  · obtain ⟨-, hcanon, hkey, hblob⟩ := hc
    rw [hnew] at hrow
    cases hrow
    unfold Store.upserted at hup
    split at hup
    · cases hup
      exact ⟨hcanon, hkey, hblob⟩
    · rename_i old hold
      split_ifs at hup with hpub
      cases hup
      exact owned_overwrite hinj (hst _ old hold) hpub hcanon hkey hblob
  · rw [hnew] at hrow
    cases hrow
    exact ⟨(hst hash row' hat).canonical, (hst hash row' hat).key, (hst hash row' hat).blob⟩
  · rw [hnew] at hrow
    cases hrow

/-- A command of a stranger, or of nobody, leaves the content of a row. -/
theorem keeps_content {call : Call} (st : Store) {clock : ℚ} {c : Cmd} {hash : String} {row : VaultRow}
    (hc : call.allowed lib c) (hrow : st.row hash = some row) (hcaller : call.caller ≠ some row.pubkey) :
    ∃ row', (answer st clock c).2.row hash = some row' ∧ SameContent row row' := by
  rcases answer_row st clock c hash with hsame | ⟨values, row', rfl, rfl, hup, hnew⟩ |
      ⟨signCount, row', rfl, hat, -, hnew⟩ | ⟨pubkey, row', rfl, hat, hpub, -⟩
  · exact ⟨row, hsame.trans hrow, rfl, rfl, rfl, rfl, rfl⟩
  · unfold Store.upserted at hup
    rw [hrow] at hup
    dsimp only at hup
    split_ifs at hup with hpub
    exact absurd (hpub ▸ hc.1) hcaller
  · rw [hrow] at hat
    cases hat
    exact ⟨_, hnew, rfl, rfl, rfl, rfl, rfl⟩
  · rw [hrow] at hat
    cases hat
    have hcall : call = .deleteVault pubkey hash := hc
    exact absurd (by rw [hcall, hpub]; rfl) hcaller

/-- The owner of a key stays while nobody deletes the row in the owner's name. -/
theorem keeps_pubkey (st : Store) (clock : ℚ) {c : Cmd} {hash : String} {row : VaultRow}
    (hrow : st.row hash = some row) (hno : c ≠ .delete hash row.pubkey) :
    ∃ row', (answer st clock c).2.row hash = some row' ∧ row'.pubkey = row.pubkey := by
  rcases answer_row st clock c hash with hsame | ⟨values, row', rfl, rfl, hup, hnew⟩ |
      ⟨signCount, row', rfl, hat, -, hnew⟩ | ⟨pubkey, row', rfl, hat, hpub, -⟩
  · exact ⟨row, hsame.trans hrow, rfl⟩
  · unfold Store.upserted at hup
    rw [hrow] at hup
    dsimp only at hup
    split_ifs at hup with hpub
    cases hup
    exact ⟨_, hnew, rfl⟩
  · rw [hrow] at hat
    cases hat
    exact ⟨_, hnew, rfl⟩
  · rw [hrow] at hat
    cases hat
    exact absurd (by rw [hpub]) hno

/-! ## Every run -/

section
variable {S : Type} [DecidableEq S] {calls : S → Call} {now : ℚ} {schedule : List (S × Outside)}
  {cfg : Config Cmd.Ans VaultExn Result S Store}

/-- Every executed command is one its call may send. -/
theorem log_allowed (h : (initial lib settings calls now).run exec schedule = some cfg)
    {e : Entry Cmd.Ans S Store} (he : e ∈ cfg.log) : (calls e.session).allowed lib e.cmd := by
  obtain ⟨l, l', hl⟩ := List.append_of_mem he
  exact Config.run_obeys (fun s _ c => (calls s).allowed lib c) (fun _ _ _ => True) rfl
    (fun s => (Call.prog_uses (calls s)).always (fun _ _ hc => hc) []) h hl

omit [DecidableEq S] in
/-- An entry of the log is the answer of its command at its time. -/
theorem entry_answer {e : Entry Cmd.Ans S Store} {ω : Outside}
    (h : exec e.session e.cmd e.before ω = some (e.ans, e.after)) :
    e.after = (answer { e.before with now := ω.now } ω.clock e.cmd).2 := by
  obtain ⟨-, hr⟩ := exec_eq_some h
  rw [← hr]

theorem run_log_trace (h : (initial lib settings calls now).run exec schedule = some cfg) :
    Trace exec (initial lib settings calls now).state cfg.log cfg.state := by
  obtain ⟨es, hes, htrace⟩ := Config.run_trace h
  rw [hes]
  exact htrace

omit [DecidableEq S] in
/-- While nobody deletes the row in its owner's name, the owner stays. -/
theorem trace_keeps_pubkey {st st' : Store} {l : List (Entry Cmd.Ans S Store)} {hash : String}
    {row : VaultRow} (h : Trace exec st l st') (hrow : st.row hash = some row)
    (hno : ∀ e ∈ l, e.cmd ≠ .delete hash row.pubkey) :
    ∃ row', st'.row hash = some row' ∧ row'.pubkey = row.pubkey := by
  refine h.inv (I := fun st => ∃ row', st.row hash = some row' ∧ row'.pubkey = row.pubkey) ?_
    ⟨row, hrow, rfl⟩
  rintro e he ω hexec ⟨row', hrow', hpub⟩
  rw [entry_answer hexec]
  obtain ⟨row'', hrow'', hpub'⟩ := keeps_pubkey { e.before with now := ω.now } ω.clock hrow' (hpub ▸ hno e he)
  exact ⟨row'', hrow'', hpub'.trans hpub⟩

end

end

/-- **A vault row belongs to its owner.**  In every interleaving of calls with any
    arguments: every row stands under the hash of its credential id and its blob names
    its owner and its passkey; a command of a call that is not the owner's leaves the
    content of a row; and between two owners of one key the first has deleted the row. -/
theorem row_belongs_to_owner (lib : Lib) (settings : Settings) (hinj : Function.Injective lib.sha256Hex)
    {S : Type} [DecidableEq S] (calls : S → Call) (now : ℚ) (schedule : List (S × Outside))
    (cfg : Config Cmd.Ans VaultExn Result S Store)
    (h : (initial lib settings calls now).run exec schedule = some cfg) :
    (∀ hash row, cfg.state.row hash = some row → credentialIdHash lib row.credentialId = .ok hash ∧
      BlobOf lib row.blob row.pubkey row.credentialId) ∧
    (∀ e ∈ cfg.log, ∀ hash row, e.before.row hash = some row →
      (calls e.session).caller ≠ some row.pubkey →
      ∃ row', e.after.row hash = some row' ∧ SameContent row row') ∧
    ∀ l₁ e l₂ e' l₃, cfg.log = l₁ ++ e :: (l₂ ++ e' :: l₃) → ∀ hash row row',
      e.before.row hash = some row → e'.after.row hash = some row' → row'.pubkey ≠ row.pubkey →
      ∃ d ∈ e :: (l₂ ++ [e']), calls d.session = .deleteVault row.pubkey hash := by
  have htrace := run_log_trace h
  refine ⟨?_, ?_, ?_⟩
  · have howned := htrace.inv (I := fun st => ∀ hash row, st.row hash = some row → Owned lib hash row)
      (fun e he ω hexec hI => by
        rw [entry_answer hexec]
        exact answer_owned hinj (log_allowed h he) hI)
      (fun hash row hrow => by cases hrow)
    exact fun hash row hrow => ⟨(howned hash row hrow).key, (howned hash row hrow).blob⟩
  · intro e he hash row hrow hcaller
    obtain ⟨l, l', hl⟩ := List.append_of_mem he
    rw [hl] at htrace
    obtain ⟨-, ⟨ω, hexec⟩, -⟩ := htrace.split_cons
    rw [entry_answer hexec]
    exact keeps_content { e.before with now := ω.now } (log_allowed h he) hrow hcaller
  · intro l₁ e l₂ e' l₃ hl hash row row' hrow hrow' hpub
    rw [hl] at htrace
    obtain ⟨-, ⟨ω, he⟩, hafter⟩ := htrace.split_cons
    obtain ⟨hbetween, ⟨ω', he'⟩, -⟩ := hafter.split_cons
    have hmid : Trace exec e.before (e :: (l₂ ++ [e'])) e'.after :=
      .cons ω he (hbetween.append (.cons ω' he' (.nil _)))
    by_contra hnone
    obtain ⟨row'', hrow'', hpub'⟩ := trace_keeps_pubkey hmid hrow fun d hd hcmd => by
      have hmem : d ∈ cfg.log := by
        rw [hl]
        simp only [List.mem_append, List.mem_cons, List.not_mem_nil, or_false] at hd ⊢
        tauto
      have hcall := log_allowed h hmem
      rw [hcmd] at hcall
      exact hnone ⟨d, hd, hcall⟩
    rw [hrow'] at hrow''
    cases hrow''
    exact hpub hpub'

/-! ## A passkey -/

/-- The bytes of a number, of which there are `length`. -/
def bytesOf (length n : ℕ) : Bytes :=
  (List.range length).reverse.map fun i => (n / 256 ^ i % 256).toUInt8

/-- A text of ASCII characters as bytes. -/
def asciiBytes (text : String) : Bytes := text.toList.map fun c => c.toNat.toUInt8

/-- Two accounts. -/
def alice : Pubkey := String.ofList (List.replicate 64 'a')
def bob : Pubkey := String.ofList (List.replicate 64 'b')

/-- The hash of the credential id `[1, 2, 3]`. -/
def passkeyHash : String := "039058c6f2c0cb492c533b0a4d14ef77cc0f78abccced5287d84a1a2011cfb81"

/-- SHA-256 on that id, and something without collisions elsewhere. -/
def passkeySha256Hex (bytes : Bytes) : String :=
  if bytes = [1, 2, 3] then passkeyHash
  else String.ofList ('x' :: bytes.map fun b => Char.ofNat b.toNat)

/-- An Ed25519 key. -/
def passkeyDer : Bytes := bytesOf 44
  0x302a300506032b6570032100d75a980182b10ab7d54bfed3c964073a0ee172f3daa62325af021a68f707511a

def sealedBlob : String :=
  "\x7b\"v\": 1, \"pubkey\": \"" ++ alice ++ "\", \"credentialId\": \"AQID\"\x7d"

/-- The library on these inputs. -/
def passkeyLib : Lib where
  loads text :=
    if text = sealedBlob then
      some (.dict [("v", .int 1), ("pubkey", .str alice), ("credentialId", .str "AQID")])
    else none
  loadsBytes _ := none
  sha256 _ := []
  sha256Hex := passkeySha256Hex
  hmacSha256 _ _ := []
  loadDerPublicKey der := .ok (if der = passkeyDer then some ⟨.ed25519, der⟩ else none)
  verify _ _ _ := false
  hostname _ := some ""
  strip text := text
  encode := asciiBytes

theorem passkeySha256Hex_injective : Function.Injective passkeySha256Hex := by
  intro bytes bytes' h
  unfold passkeySha256Hex at h
  have hne : ∀ cs : List Char, passkeyHash ≠ String.ofList ('x' :: cs) := by
    intro cs heq
    have hhead := congrArg (fun text => text.toList.head?) heq
    simp only [String.toList_ofList, List.head?_cons] at hhead
    revert hhead
    decide
  split_ifs at h with hb hb'
  · rw [hb, hb']
  · exact absurd h (hne _)
  · exact absurd h.symm (hne _)
  · rw [String.ofList_inj, List.cons.injEq] at h
    refine List.map_injective_iff.2 ?_ h.2
    intro b b' hbb
    have hvalid : ∀ b : UInt8, (Char.ofNat b.toNat).toNat = b.toNat := by
      intro b
      have hlt := b.toNat_lt
      have hv : b.toNat.isValidChar := Or.inl (by omega)
      rw [Char.ofNat, dif_pos hv]
      rfl
    dsimp only at hbb
    rw [← UInt8.toNat_inj, ← hvalid b, ← hvalid b', hbb]

/-- Alice stores her vault, Bob asks to delete it. -/
def storeThenStranger : ℕ → Call
  | 0 => .storeVault
      { callerPubkey := alice, pathHash := passkeyHash, credentialId := "AQID"
        publicKey := b64url passkeyDer, alg := algEddsa, blob := sealedBlob, label := none }
  | _ => .deleteVault bob passkeyHash

def anySettings : Settings := ⟨"secret", "", "https://b.io"⟩

/-- A stranger's call leaves the row, and the row is its owner's. -/
theorem stranger_deletes_nothing : Function.Injective passkeyLib.sha256Hex ∧
    ∃ cfg row, (initial passkeyLib anySettings storeThenStranger 0).run exec
        [(0, ⟨1, 1⟩), (1, ⟨2, 2⟩)] = some cfg ∧
      cfg.state.row passkeyHash = some row ∧ BlobOf passkeyLib row.blob row.pubkey row.credentialId := by
  have hrun : (((initial passkeyLib anySettings storeThenStranger 0).run exec
      [(0, ⟨1, 1⟩), (1, ⟨2, 2⟩)]).bind fun cfg => cfg.state.row passkeyHash).isSome = true := by
    decide
  obtain ⟨row, hrow⟩ := Option.isSome_iff_exists.1 hrun
  obtain ⟨cfg, hcfg, hrow⟩ := Option.bind_eq_some_iff.1 hrow
  refine ⟨passkeySha256Hex_injective, cfg, row, hcfg, hrow, ?_⟩
  exact ((row_belongs_to_owner passkeyLib anySettings passkeySha256Hex_injective storeThenStranger 0 _ cfg
    hcfg).1 passkeyHash row hrow).2

end Vault

end BrainstormServer
