import Soil.Appending
import Soil.Orm.Insert

/-!
# What each builder function writes

For every part of a statement, in the order of the builder functions: `tokens`, the
text it is written as together with the arguments it binds, and `known`, whether it
can be written at all: its fields are fields of the model, its tables have a model and
its expressions are supported.  The theorems `…_appends` say that the builder function
appends exactly these tokens and their arguments if the part is known, and fails
otherwise.
-/

namespace Soil.Orm

open Sql Appends TableReference

def tokArgs : Tok → List GoAny
  | .ph v => [v]
  | .raw _ args => args
  | _ => []

instance : Sink Builder Tok where
  emit b ts := { b with sql := b.sql ++ ts, args := b.args ++ ts.flatMap tokArgs }
  emit_nil b := by simp
  emit_append b ts us := by simp

section

variable (b : Builder) (ts : List Tok)

@[simp] theorem emit_sql : (emit b ts).sql = b.sql ++ ts := rfl
@[simp] theorem emit_args : (emit b ts).args = b.args ++ ts.flatMap tokArgs := rfl
@[simp] theorem emit_model : (emit b ts).model = b.model := rfl
@[simp] theorem emit_quoter : (emit b ts).quoter = b.quoter := rfl

end

structure Within (r : Registry) (m : Model) (b : Builder) : Prop where
  registry : b.r = r
  model : b.model = some m

variable {r : Registry} {m : Model} {b : Builder} {ts us out : List Tok} {possible : Bool}
  {f : Builder → Build}

theorem within_stable : Stable (Within r m) := fun _ _ within => ⟨within.registry, within.model⟩

theorem Within.write (within : Within r m b) (ts : List Tok) : Within r m (b.write ts) :=
  ⟨within.registry, within.model⟩

theorem write_eq_emit (plain : ts.flatMap tokArgs = []) (b : Builder) : b.write ts = emit b ts := by
  simp [Builder.write, emit, plain]

theorem addArgs_eq_emit {vs : List GoAny} (bound : ts.flatMap tokArgs = vs) (b : Builder) :
    (b.write ts).addArgs vs = emit b ts := by
  simp [Builder.write, Builder.addArgs, emit, bound]

/-! ## Rules for the shapes of builder code -/

abbrev Writes (r : Registry) (m : Model) (possible : Bool) (f : Builder → Build) (out : List Tok) :
    Prop :=
  Appends (Within r m) possible f out

theorem Writes.after (rest : Writes r m possible f out) (ts : List Tok)
    (plain : ts.flatMap tokArgs = []) : Writes r m possible (fun b => f (b.write ts)) (ts ++ out) :=
  Appends.after within_stable (write_eq_emit plain) rest

theorem Writes.before (first : Writes r m possible f out) (ts : List Tok)
    (plain : ts.flatMap tokArgs = []) :
    Writes r m possible (fun b => f b >>= fun b => .ok (b.write ts)) (out ++ ts) :=
  Appends.before first (write_eq_emit plain)

variable {possible' : Bool}

theorem Writes.bind {g : Builder → Build} (first : Writes r m possible f out)
    (second : Writes r m possible' g us) :
    Writes r m (possible && possible') (fun b => f b >>= g) (out ++ us) :=
  Appends.bind within_stable first second

def aliasTokens (name : String) : List Tok := if name ≠ "" then [.alias, .ident name] else []

theorem writeAlias_eq_emit (name : String) (b : Builder) :
    (if name ≠ "" then b.write [.alias, .ident name] else b) = emit b (aliasTokens name) := by
  unfold aliasTokens
  split
  · exact write_eq_emit rfl b
  · exact (emit_nil b).symm

theorem separator_eq_emit (first : Bool) (b : Builder) :
    (if first then b else b.write [.kw .comma]) = emit b (if first then [] else [.kw .comma]) := by
  cases first
  · exact write_eq_emit rfl b
  · exact (emit_nil b).symm

theorem buildIf_writes {c : Prop} [Decidable c] (body : c → Writes r m possible f out) :
    Writes r m (if c then possible else true) (fun b => buildIf c f b) (if c then out else []) :=
  ite body fun _ => skip

def sepTokens {α : Type} (sep : List Tok) (out : α → List Tok) : List α → List Tok
  | [] => []
  | x :: xs => out x ++ xs.flatMap fun y => sep ++ out y

variable {α : Type}

theorem buildSep_writes (sep : List Tok) {f : Builder → α → Build}
    {possible : α → Bool} {out : α → List Tok} (plain : sep.flatMap tokArgs = [])
    (each : ∀ x, Writes r m (possible x) (fun b => f b x) (out x)) (xs : List α) :
    Writes r m (xs.all possible) (fun b => buildSep sep f b xs) (sepTokens sep out xs) := by
  cases xs with
  | nil => exact skip
  | cons x xs =>
    refine (each x).bind (foldlM within_stable xs fun y _ => ?_)
    exact (each y).after sep plain

theorem all_of_ne_nil (xs : List α) (p : α → Bool) :
    (if xs ≠ [] then xs.all p else true) = xs.all p := by
  cases xs <;> simp

theorem liftErr_writes {read : Except OrmErr α} {v : α} {rest : Builder → α → Build}
    (lost : Builder → Builder) (kept : ∀ b, Within r m b → Within r m (lost b))
    (ok : possible = true → read = .ok v) (fails : possible = false → ∃ e, read = .error e)
    (writes : Writes r m possible' (fun b => rest b v) out) :
    Writes r m (possible && possible') (fun b => liftErr (lost b) read >>= rest b) out := by
  cases possible with
  | true =>
    refine congr writes fun b _ => ?_
    rw [ok rfl]
    rfl
  | false =>
    obtain ⟨e, failed⟩ := fails rfl
    refine failure fun b within => ⟨e, lost b, ?_, kept b within⟩
    rw [failed]
    rfl

/-! ## What is written -/

section

variable (r m)

def resolveColumn (c : Column) : Option (Expr GoAny) :=
  match c.table with
  | none => (m.fieldMap c.name).map fun field => .col none field.colName
  | some t =>
    match r t.entity with
    | .error _ => none
    | .ok tm => (tm.fieldMap c.name).map fun field =>
      .col (some (if t.aliasName = "" then tm.tableName else t.aliasName)) field.colName

def Column.known (c : Column) : Bool := (resolveColumn r m c).isSome

def Column.tokens (c : Column) : List Tok :=
  match resolveColumn r m c with
  | some (.col none name) => .ident name :: aliasTokens c.aliasName
  | some (.col (some qualifier) name) => [.ident qualifier, .dot, .ident name]
  | _ => []

def Aggregate.tokens (a : Aggregate) : List Tok :=
  [.func a.fn, .lpar] ++ (col a.arg).tokens r m ++ [.rpar] ++ aliasTokens a.aliasName

def Expression.operandTokens : Expression → List Tok
  | .column c => ({ c with aliasName := "" } : Column).tokens r m
  | .value v => [.ph v]
  | .aggregate a => a.tokens r m
  | .raw text args => [.lpar, .raw text args, .rpar]
  | _ => []

def Expression.known : Expression → Bool
  | .nil => true
  | .column c => c.known r m
  | .value _ => true
  | .aggregate a => (col a.arg).known r m
  | .predicate left _ right => left.known && right.known
  | .raw _ _ => true
  | .math _ _ _ => false

def Expression.subTokens : Expression → List Tok
  | .predicate left op right =>
    [.lpar] ++ (left.subTokens ++ op.tokens ++ right.subTokens) ++ [.rpar]
  | e => e.operandTokens r m

def Expression.tokens : Expression → List Tok
  | .predicate left op right => left.subTokens r m ++ op.tokens ++ right.subTokens r m
  | e => e.operandTokens r m

def predicatesKnown : List Predicate → Bool
  | [] => false
  | p :: ps => (ps.foldl Predicate.and p).expr.known r m

def predicatesTokens : List Predicate → List Tok
  | [] => []
  | p :: ps => (ps.foldl Predicate.and p).expr.tokens r m

def assignmentKnown (column : String) (val : Expression) : Bool :=
  (col column).known r m && val.known r m

def assignmentTokens (column : String) (val : Expression) : List Tok :=
  (col column).tokens r m ++ ([.eqSign] ++ val.tokens r m)

def clauseTokens (k : Keyword) (ps : List Predicate) : List Tok :=
  if ps ≠ [] then [.kw k] ++ predicatesTokens r m ps else []

def clauseKnown (ps : List Predicate) : Bool :=
  if ps ≠ [] then predicatesKnown r m ps else true

def softDeleteTokens (where_ : List Predicate) : List Tok :=
  match m.deletedAtField with
  | none => clauseTokens r m .where_ where_
  | some field =>
    [.kw .where_, .ident field.colName, .isNull] ++
      (if where_ ≠ [] then [.and] ++ predicatesTokens r m where_ else [])

def Selectable.known : Selectable → Bool
  | .column c => c.known r m
  | .aggregate a => (col a.arg).known r m
  | .raw _ _ => true

def Selectable.tokens : Selectable → List Tok
  | .column c => c.tokens r m
  | .aggregate a => a.tokens r m
  | .raw text args => [.raw text args]

def columnsTokens (columns : List Selectable) : List Tok :=
  if columns = [] then [.kw .star] else sepTokens [.kw .comma] (Selectable.tokens r m) columns

def usingTokens (using_ : List String) : List Tok :=
  [.kw .using_, .lpar] ++ sepTokens [.kw .commaBlank] (Column.tokens r m) (using_.map col) ++
    [.rpar]

def TableReference.known : TableReference → Bool
  | .nil => true
  | .table t => (r t.entity).isOk
  | .join left _ right on using_ =>
    left.known && right.known &&
      (if using_ ≠ [] then (using_.map col).all (Column.known r m) else true) &&
      clauseKnown r m on
  | .other => false

def TableReference.tokens : TableReference → List Tok
  | .nil => [.ident m.tableName]
  | .table t =>
    match r t.entity with
    | .error _ => []
    | .ok tm => .ident tm.tableName :: aliasTokens t.aliasName
  | .join left typ right on using_ =>
    [.lpar] ++ left.tokens ++ [.kw (.join typ)] ++ right.tokens ++
      (if using_ ≠ [] then usingTokens r m using_ else []) ++ clauseTokens r m .on on ++ [.rpar]
  | .other => []

def OrderBy.tokens (o : OrderBy) : List Tok :=
  (Orm.col o.col).tokens r m ++ [.kw (.order o.order)]

end

/-! ## Columns, aggregates and expressions -/

theorem buildColumn_writes (c : Column) :
    Writes r m (c.known r m) (fun b => buildColumn b c) (c.tokens r m) := by
  obtain ⟨name, table, aliasName⟩ := c
  unfold Column.known Column.tokens resolveColumn
  cases table with
  | none =>
    cases found : m.fieldMap name with
    | none =>
      refine failure fun b within => ⟨.unknownField name, b, ?_, within⟩
      simp [buildColumn, within.model, found]
    | some field =>
      refine ⟨fun _ b within => ?_, fun unknown => by cases unknown⟩
      have run : buildColumn b ⟨name, none, aliasName⟩ =
          .ok (if aliasName ≠ "" then (b.write [.ident field.colName]).write
            [.alias, .ident aliasName] else b.write [.ident field.colName]) := by
        simp [buildColumn, within.model, found]
      rw [run, writeAlias_eq_emit, write_eq_emit rfl, ← emit_append]
      rfl
  | some t =>
    cases entity : r t.entity with simp only [entity]
    | error e =>
      refine failure fun b within => ⟨e, b, ?_, within⟩
      simp [buildColumn, within.registry, entity]
    | ok tm =>
      cases found : tm.fieldMap name with
      | none =>
        refine failure fun b within => ⟨.unknownField name, b, ?_, within⟩
        simp [buildColumn, within.registry, entity, found]
      | some =>
        simp only [Option.map_some]
        refine ⟨fun _ b within => ?_, fun unknown => by cases unknown⟩
        simp only [buildColumn, within.registry, entity, found]
        rw [write_eq_emit rfl]

theorem buildAggregate_writes (a : Aggregate) :
    Writes r m ((col a.arg).known r m) (fun b => buildAggregate b a) (a.tokens r m) := by
  have head := (buildColumn_writes (r := r) (m := m) (col a.arg)).after [.func a.fn, .lpar] rfl
  have tail (b : Builder) : emit (b.write [.rpar]) (aliasTokens a.aliasName) =
      emit b ([.rpar] ++ aliasTokens a.aliasName) := by
    rw [write_eq_emit rfl, ← emit_append]
  rw [Aggregate.tokens, List.append_assoc]
  refine (before head tail).congr fun b _ => ?_
  simp only [buildAggregate, writeAlias_eq_emit]
  rfl

theorem buildOperand_writes {e : Expression}
    (leaf : ∀ left op right, e ≠ .predicate left op right) :
    Writes r m (e.known r m) (fun b => buildOperand b e) (e.operandTokens r m) := by
  cases e with
  | nil => exact skip
  | column c => exact buildColumn_writes { c with aliasName := "" }
  | value => exact emits fun b => congrArg _ (addArgs_eq_emit rfl b)
  | aggregate a => exact buildAggregate_writes a
  | raw text args =>
    refine emits fun b => ?_
    have bound : ([.lpar, .raw text args] : List Tok).flatMap tokArgs = args := by simp [tokArgs]
    rw [buildOperand, addArgs_eq_emit bound, write_eq_emit rfl, ← emit_append]
    rfl
  | math =>
    exact failure fun b within => ⟨.unsupportedExpression, b, rfl, within⟩
  | predicate left op right => exact absurd rfl (leaf left op right)

theorem Op.tokens_args (op : Op) : op.tokens.flatMap tokArgs = [] := by
  cases op <;> rfl

theorem buildBinaryExpr_writes {left right : Expression} (op : Op)
    (hl : Writes r m (left.known r m) (fun b => buildSubExpr b left) (left.subTokens r m))
    (hr : Writes r m (right.known r m) (fun b => buildSubExpr b right) (right.subTokens r m)) :
    Writes r m (left.known r m && right.known r m) (fun b => buildBinaryExpr b left op right)
      (left.subTokens r m ++ op.tokens ++ right.subTokens r m) := by
  rw [List.append_assoc]
  refine congr (hl.bind (hr.after op.tokens op.tokens_args)) fun b _ => ?_
  -- nothing is written for a right side that is nil
  cases right <;> rfl

theorem buildSubExpr_predicate (b : Builder) (left : Expression) (op : Op) (right : Expression) :
    buildSubExpr b (.predicate left op right) =
      (buildBinaryExpr (b.write [.lpar]) left op right).bind fun b => .ok (b.write [.rpar]) := by
  rw [buildSubExpr, buildBinaryExpr]
  cases left : buildSubExpr (b.write [.lpar]) left with
  | error => rfl
  | ok => cases right <;> rfl

theorem buildSubExpr_writes (e : Expression) :
    Writes r m (e.known r m) (fun b => buildSubExpr b e) (e.subTokens r m) := by
  induction e with
  | predicate left op right hl hr =>
    have inner := buildBinaryExpr_writes op hl hr
    refine congr ((inner.after [.lpar] rfl).before [.rpar] rfl) fun b _ => ?_
    rw [buildSubExpr_predicate]
    rfl
  | _ => exact buildOperand_writes (by simp)

theorem buildExpression_writes (e : Expression) :
    Writes r m (e.known r m) (fun b => buildExpression b e) (e.tokens r m) := by
  cases e with
  | predicate left op right =>
    exact buildBinaryExpr_writes op (buildSubExpr_writes left) (buildSubExpr_writes right)
  | _ => exact buildOperand_writes (by simp)

theorem buildPredicates_writes (ps : List Predicate) :
    Writes r m (predicatesKnown r m ps) (fun b => buildPredicates b ps)
      (predicatesTokens r m ps) := by
  cases ps with
  | nil => exact failure fun b within => ⟨.panic, b, rfl, within⟩
  | cons => exact buildExpression_writes _

theorem buildAssignment_writes (column : String) (val : Expression) :
    Writes r m (assignmentKnown r m column val) (fun b => buildAssignment b column val)
      (assignmentTokens r m column val) :=
  (buildColumn_writes (col column)).bind ((buildExpression_writes val).after [.eqSign] rfl)

/-! ## Clauses -/

theorem buildClause_writes (k : Keyword) (ps : List Predicate) : Writes r m (clauseKnown r m ps)
      (fun b => buildIf (ps ≠ []) (fun b => buildPredicates (b.write [.kw k]) ps) b)
      (clauseTokens r m k ps) :=
  buildIf_writes fun _ => (buildPredicates_writes ps).after [.kw k] rfl

theorem buildWhere_writes (where_ : List Predicate) :
    Writes r m (clauseKnown r m where_) (fun b => buildWhereWithSoftDelete b where_)
      (softDeleteTokens r m where_) := by
  cases deleted : m.deletedAtField with rw [softDeleteTokens, deleted]
  | none =>
    refine congr (buildClause_writes .where_ where_) fun b within => ?_
    by_cases empty : where_ = [] <;>
      simp [buildWhereWithSoftDelete, buildIf, within.model, deleted, empty]
  | some field =>
    have user := buildIf_writes (c := where_ ≠ [])
      fun _ => (buildPredicates_writes (r := r) (m := m) where_).after [.and] rfl
    refine congr (user.after [.kw .where_, .ident field.colName, .isNull] rfl) fun b within => ?_
    by_cases empty : where_ = [] <;>
      simp [buildWhereWithSoftDelete, buildIf, within.model, deleted]

/-! ## SELECT -/

theorem buildSelectable_writes (s : Selectable) :
    Writes r m (s.known r m) (fun b => buildSelectable b s) (s.tokens r m) := by
  cases s with
  | column c => exact buildColumn_writes c
  | aggregate a => exact buildAggregate_writes a
  | raw =>
    exact emits fun b => congrArg _ (addArgs_eq_emit (by simp [tokArgs]) b)

theorem buildColumns_writes (columns : List Selectable) :
    Writes r m (columns.all (Selectable.known r m)) (fun b => buildColumns b columns)
      (columnsTokens r m columns) := by
  unfold columnsTokens
  split
  case isTrue empty =>
    subst empty
    exact emits fun b => congrArg _ (write_eq_emit rfl b)
  case isFalse some_ =>
    refine congr (buildSep_writes [.kw .comma] rfl buildSelectable_writes columns) fun b _ => ?_
    simp [buildColumns, some_]

theorem buildUsing_writes (using_ : List String) :
    Writes r m ((using_.map col).all (Column.known r m)) (buildUsing using_)
      (usingTokens r m using_) :=
  ((buildSep_writes [.kw .commaBlank] rfl buildColumn_writes _).after [.kw .using_, .lpar]
    rfl).before
    [.rpar] rfl

theorem buildTable_writes (t : TableReference) :
    Writes r m (t.known r m) (fun b => buildTable b t) (t.tokens r m) := by
  induction t with
  | nil =>
    refine ⟨fun _ b within => ?_, fun unknown => by cases unknown⟩
    simp only [buildTable, within.model]
    rw [write_eq_emit rfl, tokens]
  | table t =>
    unfold known tokens
    cases entity : r t.entity with
    | error e =>
      refine failure fun b within => ⟨e, b, ?_, within⟩
      simp [buildTable, within.registry, entity]
    | ok =>
      refine ⟨fun _ b within => ?_, fun unknown => by cases unknown⟩
      simp only [buildTable, within.registry, entity]
      rw [writeAlias_eq_emit, write_eq_emit rfl, ← emit_append]
      rfl
  | join left typ right on using_ hl hr =>
    have shared := buildIf_writes (c := using_ ≠ [])
      fun _ => buildUsing_writes (r := r) (m := m) using_
    have tail := (shared.bind (buildClause_writes .on on)).before [.rpar] rfl
    have whole := (hl.after [.lpar] rfl).bind ((hr.after [.kw (.join typ)] rfl).bind tail)
    refine cast (congr whole fun b _ => ?_) ?_ ?_
    · simp [buildTable]
    · simp [known, Bool.and_assoc]
    · simp [tokens]
  | other => exact failure fun b within => ⟨.unsupportedTable, b, rfl, within⟩

theorem buildOrderBy_writes (orderBy : List OrderBy) :
    Writes r m (orderBy.all fun o => (col o.col).known r m) (fun b => buildOrderBy b orderBy)
      (sepTokens [.kw .comma] (OrderBy.tokens r m) orderBy) :=
  buildSep_writes [.kw .comma] rfl
    (fun o => (buildColumn_writes (col o.col)).before [.kw (.order o.order)] rfl) orderBy

end Soil.Orm
