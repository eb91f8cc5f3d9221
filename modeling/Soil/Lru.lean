import Mathlib.Algebra.Order.BigOperators.Group.List
import Mathlib.Algebra.Order.Ring.Nat

/-!
# Least recently used entries

A cache of limited weight as the list of its entries in the order of their last use, the oldest
first.
-/

namespace Soil.Lru

open List

structure Entry (K α : Type) where
  key : K
  val : α
  weight : Nat
  deriving DecidableEq, Repr

variable {K α : Type}

def total (es : List (Entry K α)) : Nat := (es.map Entry.weight).sum

/-! ## Making room -/

def makeRoom (capacity weight : Nat) : List (Entry K α) → List (Entry K α)
  | [] => []
  | e :: es =>
    if capacity < total (e :: es) + weight then makeRoom capacity weight es else e :: es

structure Fewest (capacity weight : Nat) (es kept : List (Entry K α)) : Prop where
  suffix : kept <:+ es
  fits : total kept + weight ≤ capacity
  most : ∀ rest, rest <:+ es → total rest + weight ≤ capacity → rest <:+ kept

variable {es front back : List (Entry K α)} {e : Entry K α} {key : K} {capacity weight : Nat}

theorem makeRoom_eq_self (fits : total es + weight ≤ capacity) :
    makeRoom capacity weight es = es := by
  cases es with
  | nil => rfl
  | cons => rw [makeRoom, if_neg (Nat.not_lt.mpr fits)]

theorem makeRoom_fewest (fits : weight ≤ capacity) (es : List (Entry K α)) :
    Fewest capacity weight es (makeRoom capacity weight es) := by
  induction es with
  | nil => exact ⟨suffix_rfl, by simpa [makeRoom, total] using fits, fun _ rest _ => rest⟩
  | cons e es ih =>
    rw [makeRoom]
    split
    next heavy =>
      refine ⟨ih.suffix.trans (suffix_cons e es), ih.fits, fun rest inside light => ?_⟩
      rcases suffix_cons_iff.mp inside with rfl | inside
      · exact absurd light (Nat.not_le.mpr heavy)
      · exact ih.most rest inside light
    next light => exact ⟨suffix_rfl, Nat.not_lt.mp light, fun _ rest _ => rest⟩

/-! ## Removing, using and storing -/

variable [DecidableEq K]

def remove (key : K) (es : List (Entry K α)) : List (Entry K α) := es.filter (·.key ≠ key)

def use (key : K) (es : List (Entry K α)) : List (Entry K α) :=
  remove key es ++ es.filter (·.key = key)

def put (capacity : Nat) (e : Entry K α) (es : List (Entry K α)) : List (Entry K α) :=
  if ∃ old ∈ es, old.key = e.key then remove e.key es ++ [e]
  else makeRoom capacity e.weight es ++ [e]

theorem remove_eq_self (absent : ∀ e ∈ es, e.key ≠ key) : remove key es = es :=
  filter_eq_self.mpr fun e inside => decide_eq_true (absent e inside)

theorem filter_key_eq_nil (absent : ∀ e ∈ es, e.key ≠ key) : es.filter (·.key = key) = [] :=
  filter_eq_nil_iff.mpr fun e inside => by simpa using absent e inside

theorem use_perm (key : K) (es : List (Entry K α)) : (use key es).Perm es := by
  have both := filter_append_perm (fun e : Entry K α => decide (e.key ≠ key)) es
  simpa [use, remove] using both

theorem use_eq_self (absent : ∀ e ∈ es, e.key ≠ key) : use key es = es := by
  rw [use, remove_eq_self absent, filter_key_eq_nil absent, append_nil]

theorem use_middle (others : ∀ o ∈ front ++ back, o.key ≠ e.key) :
    use e.key (front ++ e :: back) = front ++ back ++ [e] := by
  have removed : remove e.key (front ++ e :: back) = front ++ back := by
    rw [← remove_eq_self others]
    simp [remove]
  have none_ := filter_key_eq_nil others
  have found : (front ++ e :: back).filter (·.key = e.key) = [e] := by
    rw [filter_append, append_eq_nil_iff] at none_
    simp [none_]
  rw [use, removed, found]

end Soil.Lru
