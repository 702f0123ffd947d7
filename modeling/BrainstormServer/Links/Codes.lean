/-
  Short codes (`app/services/shorturl_service.py`).

  A code is written in digits and capital letters without `I`, `L`, `O` and `U`.  A code that is
  typed is folded first: its case is dropped, and the letters that look like digits become the
  digits.

  `normalizeShortCode_eq_iff`: so a code is found by whatever looks like it, and by nothing else.
-/
import BrainstormServer.Nsec.KeyFile
import Mathlib.Data.List.Forall2

namespace BrainstormServer

namespace Links

/-- A Python string. -/
abbrev Text := List Char

/-- `SHORT_CODE_LENGTH`. -/
def shortCodeLength : ℕ := 8

/-- `_SHORT_CODE_ALPHABET`. -/
def shortCodeAlphabet : Text := "0123456789ABCDEFGHJKMNPQRSTVWXYZ".toList

/-- `_CONFUSABLES`. -/
def confusables : Char → Char
  | 'I' => '1'
  | 'L' => '1'
  | 'O' => '0'
  | c => c

/-- A code that `generate_short_code` can make. -/
structure ShortCode where
  text : Text
  length_eq : text.length = shortCodeLength
  mem_alphabet : ∀ c ∈ text, c ∈ shortCodeAlphabet

/-- `normalize_short_code`; the path lets only letters and digits of ASCII through. -/
def normalizeShortCode (raw : Text) : Text :=
  ((Nsec.strip raw).map Char.toUpper).map confusables

/-- The pattern of the path, `^[A-Za-z0-9]{6,32}$`. -/
def pathPattern (raw : Text) : Bool := raw.all Char.isAlphanum && 6 ≤ raw.length && raw.length ≤ 32

/-- A character that was typed may be meant as one of a code. -/
def LooksLike (typed c : Char) : Prop :=
  typed.toUpper = c ∨ (c = '1' ∧ (typed.toUpper = 'I' ∨ typed.toUpper = 'L')) ∨ (c = '0' ∧ typed.toUpper = 'O')

/-- A text that was typed may be meant as a code. -/
def Reads (typed code : Text) : Prop := List.Forall₂ LooksLike typed code

theorem confusables_eq_iff {u c : Char} (hc : c ∈ shortCodeAlphabet) :
    confusables u = c ↔ u = c ∨ (c = '1' ∧ (u = 'I' ∨ u = 'L')) ∨ (c = '0' ∧ u = 'O') := by
  have hI : c ≠ 'I' := by
    rintro rfl
    revert hc
    decide
  have hL : c ≠ 'L' := by
    rintro rfl
    revert hc
    decide
  have hO : c ≠ 'O' := by
    rintro rfl
    revert hc
    decide
  unfold confusables
  split
  · simp [hI.symm, eq_comm]
  · simp [hL.symm, eq_comm]
  · simp [hO.symm, eq_comm]
  · rename_i h1 h2 h3
    have hI' : u ≠ 'I' := h1
    have hL' : u ≠ 'L' := h2
    have hO' : u ≠ 'O' := h3
    simp only [hI', hL', hO', or_self, and_false, or_false]

theorem isSpace_of_isAlphanum {c : Char} (h : c.isAlphanum = true) : Nsec.isSpace c = false := by
  have hrange : (65 ≤ c.toNat ∧ c.toNat ≤ 90) ∨ (97 ≤ c.toNat ∧ c.toNat ≤ 122) ∨ (48 ≤ c.toNat ∧ c.toNat ≤ 57) := by
    delta Char.isAlphanum Char.isAlpha Char.isUpper Char.isLower Char.isDigit at h
    simpa [UInt32.le_iff_toNat_le, or_assoc] using h
  unfold Nsec.isSpace
  rw [decide_eq_false_iff_not]
  omega

theorem strip_of_alphanum {raw : Text} (h : ∀ c ∈ raw, c.isAlphanum = true) : Nsec.strip raw = raw :=
  Nsec.Trimmed.strip_eq ⟨fun c hc => isSpace_of_isAlphanum (h c (List.mem_of_mem_head? hc)),
    fun c hc => isSpace_of_isAlphanum (h c (List.mem_of_mem_getLast? hc))⟩

/-- **What is typed finds a code** exactly if it looks like it. -/
theorem normalizeShortCode_eq_iff {raw code : Text} (hraw : ∀ c ∈ raw, c.isAlphanum = true)
    (hcode : ∀ c ∈ code, c ∈ shortCodeAlphabet) : normalizeShortCode raw = code ↔ Reads raw code := by
  rw [normalizeShortCode, strip_of_alphanum hraw, List.map_map]
  clear hraw
  induction raw generalizing code with
  | nil => cases code <;> simp [Reads]
  | cons typed raw ih =>
    cases code with
    | nil => simp [Reads]
    | cons c code =>
      have hrest := ih fun d hd => hcode d (List.mem_cons_of_mem c hd)
      unfold Reads at hrest ⊢
      rw [List.map_cons, List.cons.injEq, List.forall₂_cons, hrest, Function.comp_apply,
        confusables_eq_iff (hcode c List.mem_cons_self)]
      exact Iff.rfl

example : normalizeShortCode "mbd5mOly".toList = "MBD5M01Y".toList := by decide

end Links

end BrainstormServer
