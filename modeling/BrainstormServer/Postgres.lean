/-
  What the columns of the tables hold.

  An `Integer` is four bytes, and a text has no null character.  A statement with a value that
  its column does not hold is refused, by the driver or by the server, whatever the rows are.
-/
import Mathlib.Data.Int.Notation
import Mathlib.Tactic.Common

namespace BrainstormServer

/-- Whether an `Integer` column holds the number. -/
def fitsInteger (n : ℤ) : Bool := -2147483648 ≤ n && n ≤ 2147483647

/-- Whether a `String` column holds the text. -/
def fitsText (s : String) : Bool := s.toList.all fun c => c.toNat ≠ 0

theorem fitsInteger_iff {n : ℤ} : fitsInteger n = true ↔ -2147483648 ≤ n ∧ n ≤ 2147483647 := by
  simp [fitsInteger]

end BrainstormServer
