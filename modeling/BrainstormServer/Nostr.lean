/-
  Events as they come from the relay, and how the server reads their tags
  (`app/utils/nostr.py`).

  A tag is a list of JSON values; the relay lets only strings through, but no
  reader relies on it.
-/
import BrainstormServer.Python

namespace BrainstormServer

abbrev Pubkey := String

namespace Nostr

/-- A tag. -/
abbrev Tag := List PyValue

/-- `isinstance(v, str)`, with the string. -/
def str? : PyValue → Option String
  | .str s => some s
  | _ => none

/-- An event as the relay sends it. -/
structure Event where
  id : String
  pubkey : Pubkey
  kind : ℕ
  createdAt : ℤ
  tags : List Tag
  content : String

/-- `tag and tag[0] == name`. -/
def isNamed (name : String) (tag : Tag) : Bool := tag.head?.bind str? = some name

/-- `tag[1]`, if it is there and a string. -/
def value? (tag : Tag) : Option String := tag[1]?.bind str?

/-- `tag_values`, the ones that are strings. -/
def tagValues (tags : List Tag) (name : String) : List String :=
  (tags.filter (isNamed name)).filterMap value?

def isHexDigit (c : Char) : Bool := c ∈ "0123456789abcdef".toList

/-- 64 characters of `[0-9a-f]`. -/
def IsPubkey (p : String) : Prop := p.toList.length = 64 ∧ ∀ c ∈ p.toList, isHexDigit c = true

instance : DecidablePred IsPubkey := fun _ => inferInstanceAs (Decidable (_ ∧ _))

/-- `_HEX64.match`; a `$` also matches before a newline at the end. -/
def hex64Match (s : String) : Bool :=
  (s.toList.take 64).length = 64 && (s.toList.take 64).all isHexDigit &&
    (s.toList.drop 64 = [] || s.toList.drop 64 = ['\n'])

/-- `s.lower()`; outside ASCII it makes no hex digit of anything. -/
def lower (s : String) : String := String.ofList (s.toList.map Char.toLower)

theorem toLower_toLower (c : Char) : c.toLower.toLower = c.toLower := by
  by_cases h : c.val ≥ 'A'.val ∧ c.val ≤ 'Z'.val
  · have hval : c.toLower.val = c.val + 32 := by
      delta Char.toLower
      rw [dif_pos h]
      rfl
    -- a small letter is no capital
    have hnot : ¬ (c.toLower.val ≥ 'A'.val ∧ c.toLower.val ≤ 'Z'.val) := by
      rw [hval]
      rintro ⟨-, hle⟩
      have hge : 65 ≤ c.val.toNat := UInt32.le_iff_toNat_le.1 h.1
      have hle' : (c.val + 32).toNat ≤ 90 := UInt32.le_iff_toNat_le.1 hle
      have hc : c.val.toNat ≤ 90 := UInt32.le_iff_toNat_le.1 h.2
      have hadd := UInt32.toNat_add c.val 32
      have h32 : (32 : UInt32).toNat = 32 := rfl
      omega
    generalize c.toLower = d at hnot
    delta Char.toLower
    rw [dif_neg hnot]
  · have hself : c.toLower = c := by
      delta Char.toLower
      rw [dif_neg h]
    rw [hself, hself]

theorem lower_lower (s : String) : lower (lower s) = lower s := by
  simp only [lower, String.toList_ofList, List.map_map, Function.comp_def, toLower_toLower]

/-- `p_tag_pubkeys`; a dict keeps the place of the first of equal keys. -/
def pTagPubkeys (tags : List Tag) : List Pubkey :=
  (((tagValues tags "p").map lower).filter hex64Match).eraseDups

/-- A pubkey of one repeated digit, for small runs. -/
def sampleKey (c : Char) : Pubkey := String.ofList (List.replicate 64 c)

end Nostr

end BrainstormServer
