import Soil.Orm.Denotation

/-!
# How expressions are written and read back
-/

namespace Soil.Orm

open List Expression

open Sql

variable {ts : List Tok} {r : Registry} {m : Model}

/-! ## Resolution -/

def Expression.resolve (r : Registry) (m : Model) : Expression → Option (Expr GoAny)
  | .nil => none
  | .column c => resolveColumn r m c
  | .value v => some (.lit v)
  | .aggregate a => (m.fieldMap a.arg).map fun field => .agg a.fn field.colName
  | .raw text args => some (.raw text args)
  | .math _ _ _ => none
  | .predicate left op right =>
    match op with
    | .none => left.resolve r m
    | .not => (right.resolve r m).map .not
    | .eq => (left.resolve r m).bind fun l => (right.resolve r m).map (.cmp .eq l)
    | .gt => (left.resolve r m).bind fun l => (right.resolve r m).map (.cmp .gt l)
    | .lt => (left.resolve r m).bind fun l => (right.resolve r m).map (.cmp .lt l)
    | .and => (left.resolve r m).bind fun l => (right.resolve r m).map (.and l)
    | .or => (left.resolve r m).bind fun l => (right.resolve r m).map (.or l)
    | _ => none

def Expression.aliasFree : Expression → Bool
  | .aggregate a => a.aliasName = ""
  | .predicate left _ right => left.aliasFree && right.aliasFree
  | _ => true

/-! ## The shape of what the constructors build -/

inductive Shape : Expression → Op → Expression → Prop
  | cmp {left right : Expression} {op : Op} (cop : CmpOp) :
      op.tokens = [.cmp cop] → Operand left → Operand right → Shape left op right
  | and {left right : Expression} : Operand left → Operand right → Shape left .and right
  | or {left right : Expression} : Operand left → Operand right → Shape left .or right
  | not {right : Expression} : Operand right → Shape .nil .not right
  | single {left : Expression} : Operand left → Shape left .none .nil

variable {p : Predicate}

theorem Built.operand (built : Built p) : Operand p.expr :=
  .predicate built

theorem Built.shape (built : Built p) : Shape p.left p.op p.right := by
  cases built with
  | columnEq c operand => exact .cmp .eq rfl (.column c) operand
  | columnGt c operand => exact .cmp .gt rfl (.column c) operand
  | columnLt c operand => exact .cmp .lt rfl (.column c) operand
  | aggregateEq a operand => exact .cmp .eq rfl (.aggregate a) operand
  | aggregateGt a operand => exact .cmp .gt rfl (.aggregate a) operand
  | aggregateLt a operand => exact .cmp .lt rfl (.aggregate a) operand
  | not built => exact .not built.operand
  | and left right => exact .and left.operand right.operand
  | or left right => exact .or left.operand right.operand
  | raw raw args => exact .single (.raw raw args)

/-! ## Subexpressions -/

/-- `ts` is how `e` is written: without keywords, read by `Reads` as the resolution of
`e`, and with an alias in it exactly when an aggregate of `e` has one. -/
structure Rendered (Reads : List Tok → Expr GoAny → Prop) (r : Registry) (m : Model)
    (e : Expression) (ts : List Tok) : Prop where
  plain : ∀ k, .kw k ∉ ts
  reads : e.aliasFree → ∃ E, e.resolve r m = some E ∧ Reads ts E
  aliased : ¬ e.aliasFree → .alias ∈ ts

theorem Column.exists_resolved {c : Column} (known : c.known r m = true) :
    ∃ q name, resolveColumn r m c = some (.col q name) := by
  unfold Column.known at known
  obtain ⟨E, resolved⟩ := Option.isSome_iff_exists.mp known
  have found := resolved
  unfold resolveColumn at found
  split at found
  · obtain ⟨field, -, rfl⟩ := Option.map_eq_some_iff.mp found
    exact ⟨_, _, resolved⟩
  · split at found
    · cases found
    · obtain ⟨field, -, rfl⟩ := Option.map_eq_some_iff.mp found
      exact ⟨_, _, resolved⟩

theorem column_rendered {c : Column} (known : c.known r m = true) :
    Rendered ReadsPrimary r m (.column c) (({ c with aliasName := "" } : Column).tokens r m) := by
  obtain ⟨q, name, found⟩ := Column.exists_resolved known
  unfold Column.tokens
  rw [show resolveColumn r m { c with aliasName := "" } = some (.col q name) from found]
  cases q with
  | none =>
    exact ⟨by simp [aliasTokens], fun _ => ⟨_, found, readsPrimary_ident⟩, by simp [aliasFree]⟩
  | some =>
    exact ⟨by simp, fun _ => ⟨_, found, readsPrimary_qualified⟩, by simp [aliasFree]⟩

theorem aggregate_rendered {a : Aggregate} (known : (col a.arg).known r m = true) :
    Rendered ReadsPrimary r m (.aggregate a) (a.tokens r m) := by
  obtain ⟨field, found⟩ : ∃ field, m.fieldMap a.arg = some field := by
    simpa [Column.known, resolveColumn, col, Option.isSome_iff_exists] using known
  have written : a.tokens r m =
      [.func a.fn, .lpar, .ident field.colName, .rpar] ++ aliasTokens a.aliasName := by
    simp [Aggregate.tokens, Column.tokens, resolveColumn, col, found, aliasTokens]
  rw [written]
  by_cases named : a.aliasName = ""
  · rw [named]
    exact ⟨by simp [aliasTokens], fun _ => ⟨_, by simp [resolve, found],
      readsPrimary_agg⟩, by simp [aliasFree, named]⟩
  · exact ⟨by simp [aliasTokens], by simp [aliasFree, named], by simp [aliasTokens, named]⟩

theorem operand_rendered {e : Expression} (operand : Operand e)
    (leaf : ∀ left op right, e ≠ .predicate left op right) (known : e.known r m = true) :
    Rendered ReadsPrimary r m e (e.operandTokens r m) := by
  cases operand with
  | value =>
    exact ⟨by simp [operandTokens], fun _ => ⟨_, rfl, readsPrimary_ph⟩, by simp [aliasFree]⟩
  | column => exact column_rendered known
  | aggregate => exact aggregate_rendered known
  | raw =>
    exact ⟨by simp [operandTokens], fun _ => ⟨_, rfl, readsPrimary_raw⟩, by simp [aliasFree]⟩
  | math => cases known
  | predicate => exact absurd rfl (leaf _ _ _)

/-! ## Predicates -/

def ReadsAsConj (ts : List Tok) (E : Expr GoAny) : Prop :=
  ∃ e es, E = List.foldl Expr.and e es ∧ ReadsConj ts (e :: es)

inductive TopLevel (r : Registry) (m : Model) : Expression → Op → Expression → List Tok → Prop
  | conj {left right : Expression} {op : Op} {ts : List Tok} : op ≠ .or →
      Rendered ReadsAsConj r m (.predicate left op right) ts → TopLevel r m left op right ts
  | or {left right : Expression} {lts rts : List Tok} : Rendered ReadsPrimary r m left lts →
      Rendered ReadsPrimary r m right rts → TopLevel r m left .or right (lts ++ .or :: rts)

section

variable {Reads Reads' : List Tok → Expr GoAny → Prop} {r : Registry}
  {e left right : Expression} {op : Op} {lts rts : List Tok} {sep : Tok}

theorem Rendered.mono (rendered : Rendered Reads r m e ts)
    (weaken : ∀ {E}, Reads ts E → Reads' ts E) : Rendered Reads' r m e ts where
  plain := rendered.plain
  aliased := rendered.aliased
  reads free := by
    obtain ⟨E, resolved, reads⟩ := rendered.reads free
    exact ⟨E, resolved, weaken reads⟩

theorem Rendered.binary {f : Expr GoAny → Expr GoAny → Expr GoAny}
    (hl : Rendered ReadsPrimary r m left lts) (hr : Rendered ReadsPrimary r m right rts)
    (plain : ∀ k, sep ≠ .kw k)
    (resolves : (predicate left op right).resolve r m =
      (left.resolve r m).bind fun l => (right.resolve r m).map (f l))
    (reads : ∀ {l r'}, ReadsPrimary lts l → ReadsPrimary rts r' →
      Reads (lts ++ sep :: rts) (f l r')) :
    Rendered Reads r m (.predicate left op right) (lts ++ sep :: rts) where
  plain k := by simp [hl.plain, hr.plain, (plain k).symm]
  reads free := by
    simp only [aliasFree, Bool.and_eq_true] at free
    obtain ⟨l, hl, readsLeft⟩ := hl.reads free.1
    obtain ⟨r', hr, readsRight⟩ := hr.reads free.2
    exact ⟨f l r', by simp [resolves, hl, hr], reads readsLeft readsRight⟩
  aliased free := by
    simp only [aliasFree, Bool.and_eq_true, not_and_or] at free
    rcases free with free | free
    · exact mem_append_left _ (hl.aliased free)
    · exact mem_append_right _ (mem_cons_of_mem _ (hr.aliased free))

theorem readsAsConj_of_readsNot {E : Expr GoAny} (reads : ReadsNot ts E) : ReadsAsConj ts E :=
  ⟨E, [], rfl, reads.readsConj⟩

theorem TopLevel.rendered (top : TopLevel r m left op right ts) :
    Rendered ReadsOr r m (.predicate left op right) ts := by
  cases top with
  | conj _ rendered =>
    refine rendered.mono ?_
    rintro E ⟨e, es, rfl, reads⟩
    exact reads.readsAnd.readsOr
  | or hl hr =>
    exact hl.binary hr (by simp) rfl fun l r' => l.readsNot.readsAnd.or r'.readsNot.readsAnd

theorem Rendered.paren (rendered : Rendered ReadsOr r m e ts) :
    Rendered ReadsPrimary r m e (.lpar :: ts ++ [.rpar]) where
  plain k := by simp [rendered.plain]
  reads free := by
    obtain ⟨E, resolved, reads⟩ := rendered.reads free
    exact ⟨E, resolved, reads.paren⟩
  aliased free := by simp [rendered.aliased free]

end

variable {op : Op}

theorem Op.resolve_cmp {left right : Expression} {cop : CmpOp} {r : Registry}
    (operator : op.tokens = [.cmp cop]) : (predicate left op right).resolve r m =
      (left.resolve r m).bind fun l => (right.resolve r m).map (.cmp cop l) := by
  cases op <;> simp [Op.tokens] at operator <;> subst operator <;> rfl

theorem binary_topLevel {left right : Expression} (shape : Shape left op right)
    (hl : Operand left → Rendered ReadsPrimary r m left (left.subTokens r m))
    (hr : Operand right → Rendered ReadsPrimary r m right (right.subTokens r m)) :
    TopLevel r m left op right (left.subTokens r m ++ op.tokens ++ right.subTokens r m) := by
  rw [append_assoc]
  cases shape with
  | cmp cop operator l r =>
    rw [operator]
    refine .conj (by rintro rfl; cases operator) ?_
    exact (hl l).binary (hr r) (by simp) (Op.resolve_cmp operator) fun l r' =>
      readsAsConj_of_readsNot (l.cmp r')
  | and l r =>
    refine .conj (by simp) ((hl l).binary (hr r) (by simp) rfl fun l r' => ?_)
    exact ⟨_, [_], rfl, l.readsNot.readsConj.append r'.readsNot.readsConj⟩
  | or l r => exact .or (hl l) (hr r)
  | not operand =>
    have rendered := hr operand
    refine .conj (by simp) ⟨fun k => ?_, fun free => ?_, fun free => ?_⟩
    · simpa [subTokens, operandTokens, Op.tokens] using rendered.plain k
    · obtain ⟨E, resolved, reads⟩ := rendered.reads (by simpa [aliasFree] using free)
      exact ⟨.not E, by simpa [resolve] using resolved, readsAsConj_of_readsNot reads.readsNot.not⟩
    · exact mem_cons_of_mem _ (rendered.aliased (by simpa [aliasFree] using free))
  | single operand =>
    have rendered := hl operand
    rw [show Op.none.tokens ++ nil.subTokens r m = [] from rfl, append_nil]
    refine .conj (by simp) ⟨rendered.plain, fun free => ?_, fun free => ?_⟩
    · obtain ⟨E, resolved, reads⟩ := rendered.reads (by simpa [aliasFree] using free)
      exact ⟨E, by simpa [resolve] using resolved, readsAsConj_of_readsNot reads.readsNot⟩
    · exact rendered.aliased (by simpa [aliasFree] using free)

theorem subTokens_rendered {e : Expression} (operand : Operand e) (known : e.known r m = true) :
    Rendered ReadsPrimary r m e (e.subTokens r m) := by
  induction e with
  | predicate left op right hl hr =>
    simp only [Expression.known, Bool.and_eq_true] at known
    cases operand with
    | predicate built =>
      exact (binary_topLevel built.shape (hl · known.1) (hr · known.2)).rendered.paren
  | _ => exact operand_rendered operand (by simp) known

theorem Built.topLevel (built : Built p) (known : p.expr.known r m = true) :
    TopLevel r m p.left p.op p.right (p.expr.tokens r m) := by
  simp only [Predicate.expr, Expression.known, Bool.and_eq_true] at known
  exact binary_topLevel built.shape (subTokens_rendered · known.1) (subTokens_rendered · known.2)

end Soil.Orm
