/-
  Bytes and their hexadecimal texts.

  `bytes.fromhex` is more lenient than `bytes.hex`: it takes capital digits, and white space
  between two bytes.  On what `bytes.hex` writes, an even number of small digits, the two are
  inverse to each other (`hex_of_fromHex`).
-/
import BrainstormServer.Nostr
import Mathlib.Tactic.Common

namespace BrainstormServer

open Nostr

/-- The hexadecimal digit of a value. -/
def hexDigit (v : ℕ) : Char := if v < 10 then Char.ofNat (v + 48) else Char.ofNat (v + 87)

/-- `bytes.hex()`. -/
def hex (bytes : Bytes) : String :=
  String.ofList (bytes.flatMap fun b => [hexDigit (b.toNat / 16), hexDigit (b.toNat % 16)])

/-- The value of a digit, small or capital. -/
def hexValue (c : Char) : Option ℕ :=
  if 48 ≤ c.toNat ∧ c.toNat ≤ 57 then some (c.toNat - 48)
  else if 97 ≤ c.toNat ∧ c.toNat ≤ 102 then some (c.toNat - 87)
  else if 65 ≤ c.toNat ∧ c.toNat ≤ 70 then some (c.toNat - 55)
  else none

/-- ASCII white space. -/
def isAsciiSpace (c : Char) : Bool := c.toNat = 32 || (9 ≤ c.toNat && c.toNat ≤ 13)

/-- `bytes.fromhex`, character by character; `none` is its `ValueError`. -/
def fromHexChars : List Char → Option Bytes
  | [] => some []
  | [c] => if isAsciiSpace c then some [] else none
  | c :: d :: cs =>
    if isAsciiSpace c then fromHexChars (d :: cs)
    else do
      let top ← hexValue c
      let bottom ← hexValue d
      let bytes ← fromHexChars cs
      return UInt8.ofNat (16 * top + bottom) :: bytes

/-- `bytes.fromhex`. -/
def fromHex (s : String) : Option Bytes := fromHexChars s.toList

/-! ## Small digits -/

/-- A small digit has a value, and it is the digit of that value. -/
theorem hexValue_of_isHexDigit {c : Char} (h : isHexDigit c = true) :
    isAsciiSpace c = false ∧ ∃ v < 16, hexValue c = some v ∧ hexDigit v = c := by
  have hall : "0123456789abcdef".toList.all (fun c => !isAsciiSpace c &&
      (hexValue c).any fun v => v < 16 && hexDigit v = c) = true := rfl
  have hc := List.all_eq_true.1 hall c (of_decide_eq_true h)
  simp only [Bool.and_eq_true, Bool.not_eq_true', Option.any_eq_true, decide_eq_true_eq] at hc
  obtain ⟨hspace, v, hv, hlt, hdigit⟩ := hc
  exact ⟨hspace, v, hlt, hv, hdigit⟩

/-- The two halves of a byte. -/
theorem halves {top bottom : ℕ} (ht : top < 16) (hb : bottom < 16) :
    (UInt8.ofNat (16 * top + bottom)).toNat / 16 = top ∧
      (UInt8.ofNat (16 * top + bottom)).toNat % 16 = bottom := by
  have hbyte : (UInt8.ofNat (16 * top + bottom)).toNat = 16 * top + bottom := by
    rw [UInt8.toNat_ofNat']
    omega
  omega

/-- Small digits, an even number of them, are read, and written again as they were. -/
theorem hexChars_of_fromHexChars {n : ℕ} : ∀ {cs : List Char}, cs.length = 2 * n →
    (∀ c ∈ cs, isHexDigit c = true) → ∃ bytes, fromHexChars cs = some bytes ∧ bytes.length = n ∧
      bytes.flatMap (fun b => [hexDigit (b.toNat / 16), hexDigit (b.toNat % 16)]) = cs := by
  induction n with
  | zero =>
    intro cs hlen _
    obtain rfl := List.length_eq_zero_iff.1 hlen
    exact ⟨[], rfl, rfl, rfl⟩
  | succ n ih =>
    intro cs hlen hcs
    match cs, hlen, hcs with
    | c :: d :: cs, hlen, hcs =>
      obtain ⟨hspace, top, htop, hvc, hc⟩ := hexValue_of_isHexDigit (hcs c (by simp))
      obtain ⟨-, bottom, hbottom, hvd, hd⟩ := hexValue_of_isHexDigit (hcs d (by simp))
      have hlen' : cs.length = 2 * n := by
        simp only [List.length_cons] at hlen
        omega
      obtain ⟨bytes, hread, hbytes, hwrite⟩ := ih hlen' fun e he => hcs e (by simp [he])
      obtain ⟨hdiv, hmod⟩ := halves htop hbottom
      refine ⟨UInt8.ofNat (16 * top + bottom) :: bytes, ?_, by simp [hbytes], ?_⟩
      · simp [fromHexChars, hspace, hvc, hvd, hread]
      · rw [List.flatMap_cons, hdiv, hmod, hc, hd, hwrite]
        rfl

/-- **What is read of an even number of small digits is written as these digits.** -/
theorem hex_of_fromHex {s : String} {n : ℕ} (hlen : s.toList.length = 2 * n)
    (hs : ∀ c ∈ s.toList, isHexDigit c = true) :
    ∃ bytes, fromHex s = some bytes ∧ bytes.length = n ∧ hex bytes = s := by
  obtain ⟨bytes, hread, hbytes, hwrite⟩ := hexChars_of_fromHexChars hlen hs
  exact ⟨bytes, hread, hbytes, by rw [hex, hwrite, String.ofList_toList]⟩

end BrainstormServer
