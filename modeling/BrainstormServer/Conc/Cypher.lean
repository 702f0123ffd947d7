/-
  Conditions of a query language with nulls.

  A comparison with a null is null, and so is a connective that the null could still decide;
  `WHERE` and `CASE` keep what is true, and a null is not.

  * `Truth`: the three truth values, with their connectives;
  * `Cond`: conditions over named values, and `Cond.eval`, what they evaluate to;
  * `Cond.holds_and`, `Cond.holds_or`, `Cond.holds_cmp`: what it takes for a condition to be
    true.
-/
import Mathlib.Order.Lattice

namespace Conc

/-! ## Truth values -/

/-- A truth value; `none` is null. -/
abbrev Truth := Option Bool

namespace Truth

/-- `a AND b`: false as soon as one is. -/
def and : Truth → Truth → Truth
  | some false, _ => some false
  | _, some false => some false
  | some true, some true => some true
  | _, _ => none

/-- `a OR b`: true as soon as one is. -/
def or : Truth → Truth → Truth
  | some true, _ => some true
  | _, some true => some true
  | some false, some false => some false
  | _, _ => none

/-- `a AND b AND …`; true of no conditions. -/
def conj (ts : List Truth) : Truth := ts.foldr and (some true)

/-- What `WHERE` keeps. -/
def holds (t : Truth) : Bool := t.getD false

@[simp] theorem holds_some (b : Bool) : holds (some b) = b := rfl

@[simp] theorem holds_none : holds none = false := rfl

@[simp] theorem holds_and (a b : Truth) : (a.and b).holds = (a.holds && b.holds) := by
  rcases a with _ | _ | _ <;> rcases b with _ | _ | _ <;> rfl

@[simp] theorem holds_or (a b : Truth) : (a.or b).holds = (a.holds || b.holds) := by
  rcases a with _ | _ | _ <;> rcases b with _ | _ | _ <;> rfl

theorem holds_conj (ts : List Truth) : (conj ts).holds = ts.all holds := by
  induction ts with
  | nil => rfl
  | cons t ts ih =>
    have hstep : conj (t :: ts) = t.and (conj ts) := rfl
    rw [hstep, holds_and, ih, List.all_cons]

end Truth

/-- A comparison of two values that may be null. -/
def compare {α : Type} (rel : α → α → Bool) (a b : Option α) : Truth := a.bind fun x => b.map fun y => rel x y

@[simp] theorem compare_some {α : Type} (rel : α → α → Bool) (x y : α) :
    compare rel (some x) (some y) = some (rel x y) :=
  rfl

/-! ## Conditions -/

/-- A comparison. -/
inductive Op
  | gt
  | ge
  | lt
  | le

/-- What a comparison says. -/
def Op.rel {R : Type} [LinearOrder R] : Op → R → R → Bool
  | gt, a, b => b < a
  | ge, a, b => b ≤ a
  | lt, a, b => a < b
  | le, a, b => a ≤ b

/-- A condition over values named by `ν`. -/
inductive Cond (ν : Type)
  | isNull (x : ν)
  | isNotNull (x : ν)
  | cmp (op : Op) (x y : ν)
  | and (a b : Cond ν)
  | or (a b : Cond ν)

variable {ν R : Type} [LinearOrder R]

/-- What a condition evaluates to. -/
def Cond.eval (env : ν → Option R) : Cond ν → Truth
  | isNull x => some (env x).isNone
  | isNotNull x => some (env x).isSome
  | cmp op x y => compare op.rel (env x) (env y)
  | and a b => (a.eval env).and (b.eval env)
  | or a b => (a.eval env).or (b.eval env)

/-- A condition is true. -/
def Cond.holds (env : ν → Option R) (c : Cond ν) : Bool := (c.eval env).holds

section
variable {env : ν → Option R}

@[simp] theorem Cond.holds_and (a b : Cond ν) : (a.and b).holds env = (a.holds env && b.holds env) :=
  Truth.holds_and _ _

@[simp] theorem Cond.holds_or (a b : Cond ν) : (a.or b).holds env = (a.holds env || b.holds env) :=
  Truth.holds_or _ _

@[simp] theorem Cond.holds_isNull (x : ν) : (Cond.isNull x).holds env = (env x).isNone := rfl

@[simp] theorem Cond.holds_isNotNull (x : ν) : (Cond.isNotNull x).holds env = (env x).isSome := rfl

/-- Of two values that are there, a comparison is what it says. -/
theorem Cond.holds_cmp {x y : ν} {a b : R} (op : Op) (hx : env x = some a) (hy : env y = some b) :
    (Cond.cmp op x y).holds env = op.rel a b := by
  rw [Cond.holds, Cond.eval, hx, hy, compare_some, Truth.holds_some]

end

end Conc
