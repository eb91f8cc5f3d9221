import Mathlib.Tactic.Common

/-!
# Three-valued truth

SQL conditions evaluate to true, false or unknown, with the strong Kleene
connectives.  A `WHERE` clause keeps a row exactly when its condition is
`Tri.true`, so the laws below are stated about that value.
-/

namespace Soil.Sql

inductive Tri where
  | true
  | false
  | unknown
  deriving DecidableEq, Repr

namespace Tri

def and : Tri → Tri → Tri
  | .true, b => b
  | .false, _ => .false
  | .unknown, .false => .false
  | .unknown, _ => .unknown

def or : Tri → Tri → Tri
  | .true, _ => .true
  | .false, b => b
  | .unknown, .true => .true
  | .unknown, _ => .unknown

def not : Tri → Tri
  | .true => .false
  | .false => .true
  | .unknown => .unknown

def ofBool : Bool → Tri
  | Bool.true => .true
  | Bool.false => .false

@[simp] theorem and_eq_true {a b : Tri} : a.and b = .true ↔ a = .true ∧ b = .true := by
  cases a <;> cases b <;> simp [and]

@[simp] theorem or_eq_true {a b : Tri} : a.or b = .true ↔ a = .true ∨ b = .true := by
  cases a <;> cases b <;> simp [or]

@[simp] theorem ofBool_eq_true {b : Bool} : ofBool b = .true ↔ b = Bool.true := by
  cases b <;> simp [ofBool]

end Tri

end Soil.Sql
