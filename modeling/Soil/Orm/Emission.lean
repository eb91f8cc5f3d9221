import Soil.Orm.BuildSpec

/-!
# The clauses around WHERE

None of the clauses written before and after the `WHERE` clause has a `WHERE` in it, and
what is written after it starts with a keyword, which is where the clause ends.
-/

namespace Soil.Orm

open List Tok TableReference

open Sql

variable {r : Registry} {m : Model}

/-! ## Expressions have no keywords -/

def Tok.calm : Tok → Bool
  | .kw (.arith _) => true
  | .kw _ => false
  | _ => true

@[simp] theorem calm_alias (name : String) : (aliasTokens name).all calm = true := by
  unfold aliasTokens
  split <;> rfl

@[simp] theorem calm_column (c : Column) : (c.tokens r m).all calm = true := by
  unfold Column.tokens
  split <;> simp [calm]

@[simp] theorem calm_aggregate (a : Aggregate) : (a.tokens r m).all calm = true := by
  simp [Aggregate.tokens, calm]

@[simp] theorem calm_op (op : Op) : op.tokens.all calm = true := by
  cases op <;> rfl

variable (e : Expression)

theorem calm_operand : (e.operandTokens r m).all calm = true := by
  cases e <;> simp [Expression.operandTokens, calm]

@[simp] theorem calm_subTokens : (e.subTokens r m).all calm = true := by
  induction e with
  | predicate left op right hl hr => simp [Expression.subTokens, calm, hl, hr]
  | _ => exact calm_operand _

@[simp] theorem calm_expression : (e.tokens r m).all calm = true := by
  cases e with
  | predicate => simp [Expression.tokens]
  | _ => simp [Expression.tokens, calm_operand]

theorem calm_predicates (ps : List Predicate) : (predicatesTokens r m ps).all calm = true := by
  cases ps with
  | nil => rfl
  | cons p ps => exact calm_expression (ps.foldl Predicate.and p).expr

/-! ## No clause has a WHERE of its own -/

def WhereFree (ts : List Tok) : Prop := .kw .where_ ∉ ts

variable {ts us : List Tok} {t : Tok} {c : Prop}

@[simp] theorem whereFree_nil : WhereFree [] := not_mem_nil

@[simp] theorem whereFree_cons : WhereFree (t :: ts) ↔ t ≠ .kw .where_ ∧ WhereFree ts := by
  simp [WhereFree, eq_comm]

@[simp] theorem whereFree_append : WhereFree (ts ++ us) ↔ WhereFree ts ∧ WhereFree us := by
  simp [WhereFree]

theorem whereFree_ite [Decidable c] (yes : WhereFree ts) (no : WhereFree us) :
    WhereFree (if c then ts else us) := by
  split
  · exact yes
  · exact no

theorem whereFree_sepTokens {α : Type} {sep : List Tok} {out : α → List Tok} {xs : List α}
    (between : WhereFree sep) (each : ∀ x, WhereFree (out x)) :
    WhereFree (sepTokens sep out xs) := by
  cases xs with
  | nil => exact whereFree_nil
  | cons x =>
    refine whereFree_append.mpr ⟨each x, fun inside => ?_⟩
    obtain ⟨y, -, inside⟩ := mem_flatMap.mp inside
    exact whereFree_append.mpr ⟨between, each y⟩ inside

theorem whereFree_of_calm (calm : ts.all calm = true) : WhereFree ts := by
  intro inside
  cases all_eq_true.mp calm _ inside

@[simp] theorem whereFree_column (c : Column) : WhereFree (c.tokens r m) :=
  whereFree_of_calm (calm_column c)

theorem whereFree_clause {k : Keyword} (other : k ≠ .where_) (ps : List Predicate) :
    WhereFree (clauseTokens r m k ps) :=
  whereFree_ite (by simp [other, whereFree_of_calm, calm_predicates]) whereFree_nil

theorem whereFree_columns (columns : List Selectable) : WhereFree (columnsTokens r m columns) := by
  refine whereFree_ite (by simp) (whereFree_sepTokens (by simp) fun c => ?_)
  cases c <;> simp [Selectable.tokens, whereFree_of_calm]

theorem whereFree_table (t : TableReference) : WhereFree (t.tokens r m) := by
  induction t with
  | table =>
    unfold tokens
    split <;> simp [whereFree_of_calm]
  | join left typ right on using_ hl hr =>
    have shared : WhereFree (usingTokens r m using_) := by
      simp [usingTokens, whereFree_sepTokens]
    simp [tokens, hl, hr, whereFree_ite, shared, whereFree_clause]
  | nil | other => simp [tokens]

theorem Updater.whereFree_set (u : Updater) : WhereFree (u.setTokens r m) := by
  have assign (a : Assignable) : WhereFree (u.assignTokens r m a) := by
    cases a <;> simp [assignTokens, assignmentTokens, whereFree_of_calm]
  have field (f : Field) : WhereFree (u.fieldTokens r m f) := by simp [fieldTokens]
  have increment : WhereFree (u.incrementTokens m) := by
    unfold incrementTokens
    split
    · exact whereFree_nil
    · exact whereFree_ite (by simp [incrementVersion]) whereFree_nil
  have fullIncrement : WhereFree (fullIncrementTokens m) := by
    unfold fullIncrementTokens
    split
    · exact whereFree_nil
    · simp [incrementVersion, whereFree_ite]
  exact whereFree_ite (by simp [whereFree_sepTokens, assign, increment])
    (by simp [whereFree_sepTokens, field, fullIncrement])

variable (s : Selector)

theorem Selector.whereFree_tail : WhereFree (s.tailTokens r m) := by
  have order (o : OrderBy) : WhereFree (o.tokens r m) := by simp [OrderBy.tokens]
  simp [tailTokens, limitTokens, offsetTokens, whereFree_ite, whereFree_sepTokens,
    whereFree_clause, order]

/-! ## The keyword after the clause -/

def isKeyword : Tok → Bool
  | .kw _ => true
  | _ => false

def StartsKw (ts : List Tok) : Prop := ∀ t ∈ ts.head?, isKeyword t = true

theorem StartsKw.append (first : StartsKw ts) (second : StartsKw us) : StartsKw (ts ++ us) := by
  cases ts with
  | nil => exact second
  | cons => exact first

theorem startsKw_ite [Decidable c] (first : StartsKw ts) : StartsKw (if c then ts else []) := by
  split
  · exact first
  · rintro t ⟨⟩

theorem startsKw_cons (k : Keyword) (ts : List Tok) : StartsKw (.kw k :: ts) := by
  rintro t ⟨⟩
  rfl

theorem Selector.tail_starts : StartsKw (s.tailTokens r m) := by
  have limit : StartsKw s.limitTokens := by
    unfold limitTokens
    split
    · exact startsKw_cons _ _
    · exact startsKw_ite (startsKw_cons _ _)
  refine .append (.append (.append (.append (.append ?_ ?_) ?_) limit) ?_) (startsKw_cons _ _) <;>
    exact startsKw_ite (startsKw_cons _ _)

end Soil.Orm
