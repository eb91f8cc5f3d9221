import Soil.Orm.BuildSpec

/-!
# The arguments of a statement

`Statement.arguments` reads the values, raw arguments and field values off the
configuration of a statement, in the order of its clauses.  `Statement.argsOf_tokens`
says that these are the arguments its tokens bind.
-/

namespace Soil.Orm

open Sql Expression

variable {r : Registry} {m : Model}

/-! ## The arguments of a statement -/

def Expression.arguments : Expression → List GoAny
  | .value v => [v]
  | .raw _ args => args
  | .predicate left _ right => left.arguments ++ right.arguments
  | _ => []

def predicatesArguments (ps : List Predicate) : List GoAny := ps.flatMap fun p => p.expr.arguments

def Selectable.arguments : Selectable → List GoAny
  | .raw _ args => args
  | _ => []

def TableReference.arguments : TableReference → List GoAny
  | .join left _ right on _ => left.arguments ++ right.arguments ++ predicatesArguments on
  | _ => []

def Selector.arguments (s : Selector) : List GoAny :=
  s.columns.flatMap Selectable.arguments ++ s.table.arguments ++ predicatesArguments s.where_ ++
    predicatesArguments s.having ++ (if 0 < s.limit then [.int s.limit] else []) ++
    (if 0 < s.offset then [.int s.offset] else [])

def Updater.assignArguments (u : Updater) : Assignable → List GoAny
  | .assignment _ val => val.arguments
  | .column c => [valueOf u.val c.name]

def Updater.arguments (u : Updater) (m : Model) : List GoAny :=
  (if u.assigns ≠ [] then u.assigns.flatMap u.assignArguments
    else (Updater.setFields m m.fields).map fun field => valueOf u.val field.goName) ++
  predicatesArguments u.where_ ++
  (match m.versionField, u.val with
    | some version, some val => [.int (versionOf val version)]
    | _, _ => [])

def Deleter.arguments (d : Deleter) (m : Model) (now : Int) : List GoAny :=
  (if m.deletedAtField.isSome then [.time now] else []) ++ predicatesArguments d.where_

def upsertArguments : List Assignable → List GoAny
  | [] => []
  | .assignment _ val :: _ => val.arguments
  | .column _ :: rest => upsertArguments rest

def Inserter.arguments (i : Inserter) (m : Model) : List GoAny :=
  (i.values.flatMap fun val => (i.insertFields m).map fun field => valueOf val field.goName) ++
    (match i.upsert with
      | none => []
      | some upsert => upsertArguments upsert.assigns)

def Statement.arguments (st : Statement) (m : Model) (now : Int) : List GoAny :=
  match st with
  | .selector s => s.arguments
  | .updater u => u.arguments m
  | .deleter d => d.arguments m now
  | .inserter i => i.arguments m

/-! ## The arguments of the tokens -/

def argsOf (ts : List Tok) : List GoAny := ts.flatMap tokArgs

@[simp] theorem argsOf_nil : argsOf [] = [] := rfl

@[simp] theorem argsOf_cons (t : Tok) (ts : List Tok) : argsOf (t :: ts) = tokArgs t ++ argsOf ts :=
  rfl

@[simp] theorem argsOf_append (ts us : List Tok) : argsOf (ts ++ us) = argsOf ts ++ argsOf us :=
  List.flatMap_append

theorem argsOf_sepTokens {α : Type} {sep : List Tok} (plain : argsOf sep = []) (out : α → List Tok)
    (xs : List α) : argsOf (sepTokens sep out xs) = xs.flatMap fun x => argsOf (out x) := by
  have rest (xs : List α) :
      argsOf (xs.flatMap fun x => sep ++ out x) = xs.flatMap fun x => argsOf (out x) := by
    induction xs with
    | nil => rfl
    | cons x xs ih => simp [plain, ih]
  cases xs with
  | nil => rfl
  | cons => simp [sepTokens, rest]

@[simp] theorem argsOf_aliasTokens (name : String) : argsOf (aliasTokens name) = [] := by
  unfold aliasTokens
  split <;> rfl

@[simp] theorem argsOf_column (c : Column) : argsOf (c.tokens r m) = [] := by
  unfold Column.tokens
  split <;> simp [tokArgs]

@[simp] theorem argsOf_aggregate (a : Aggregate) : argsOf (a.tokens r m) = [] := by
  simp [Aggregate.tokens, tokArgs]

@[simp] theorem argsOf_op (op : Op) : argsOf op.tokens = [] := op.tokens_args

theorem argsOf_subTokens (e : Expression) : argsOf (e.subTokens r m) = e.arguments := by
  induction e with
  | predicate left op right hl hr =>
    simp [subTokens, arguments, tokArgs, hl, hr]
  | _ => simp [subTokens, operandTokens, arguments, tokArgs]

@[simp] theorem argsOf_expression (e : Expression) : argsOf (e.tokens r m) = e.arguments := by
  cases e with
  | predicate =>
    simp [tokens, arguments, argsOf_subTokens]
  | _ => simp [tokens, operandTokens, arguments, tokArgs]

theorem arguments_foldl (p : Predicate) (ps : List Predicate) :
    (ps.foldl Predicate.and p).expr.arguments = predicatesArguments (p :: ps) := by
  induction ps generalizing p with
  | nil => simp [predicatesArguments]
  | cons q ps ih =>
    rw [List.foldl_cons, ih]
    simp [predicatesArguments, Predicate.and, Predicate.expr, arguments]

@[simp] theorem argsOf_predicates (ps : List Predicate) :
    argsOf (predicatesTokens r m ps) = predicatesArguments ps := by
  cases ps with
  | nil => rfl
  | cons => rw [predicatesTokens, argsOf_expression, arguments_foldl]

@[simp] theorem argsOf_clause (k : Keyword) (ps : List Predicate) :
    argsOf (clauseTokens r m k ps) = predicatesArguments ps := by
  cases ps <;> simp [clauseTokens, predicatesArguments, tokArgs]

@[simp] theorem argsOf_where (ps : List Predicate) :
    argsOf (softDeleteTokens r m ps) = predicatesArguments ps := by
  unfold softDeleteTokens
  cases m.deletedAtField with
  | none => exact argsOf_clause _ ps
  | some => cases ps <;> simp [predicatesArguments, tokArgs]

@[simp] theorem argsOf_assignment (column : String) (val : Expression) :
    argsOf (assignmentTokens r m column val) = val.arguments := by
  simp [assignmentTokens, tokArgs]

theorem argsOf_selectable (s : Selectable) : argsOf (s.tokens r m) = s.arguments := by
  cases s <;> simp [Selectable.tokens, Selectable.arguments, tokArgs]

@[simp] theorem argsOf_columns (columns : List Selectable) :
    argsOf (columnsTokens r m columns) = columns.flatMap Selectable.arguments := by
  unfold columnsTokens
  split
  case isTrue empty => simp [empty, tokArgs]
  case isFalse => simp [argsOf_sepTokens, argsOf_selectable, tokArgs]

@[simp] theorem argsOf_using (using_ : List String) : argsOf (usingTokens r m using_) = [] := by
  simp [usingTokens, argsOf_sepTokens, tokArgs]

@[simp] theorem argsOf_table (t : TableReference) : argsOf (t.tokens r m) = t.arguments := by
  induction t with
  | nil => rfl
  | table =>
    unfold TableReference.tokens TableReference.arguments
    split <;> simp [tokArgs]
  | join left typ right on using_ hl hr =>
    simp only [TableReference.tokens, TableReference.arguments, argsOf_append, hl, hr,
      argsOf_clause]
    split <;> simp [tokArgs]
  | other => rfl

theorem Selector.argsOf_tail (s : Selector) :
    argsOf (s.tailTokens r m) = predicatesArguments s.having ++
      ((if 0 < s.limit then [.int s.limit] else []) ++
        (if 0 < s.offset then [.int s.offset] else [])) := by
  have groupBy : argsOf (sepTokens [.kw .comma] (Column.tokens r m) s.groupBy) = [] := by
    rw [argsOf_sepTokens rfl]
    simp
  have orderBy : argsOf (sepTokens [.kw .comma] (OrderBy.tokens r m) s.orderBy) = [] := by
    rw [argsOf_sepTokens rfl]
    simp [OrderBy.tokens, tokArgs]
  have limit : argsOf s.limitTokens = if 0 < s.limit then [.int s.limit] else [] := by
    unfold limitTokens
    split
    · rfl
    · split <;> rfl
  have offset : argsOf s.offsetTokens = if 0 < s.offset then [.int s.offset] else [] := by
    unfold offsetTokens
    split <;> rfl
  simp only [tailTokens, argsOf_append, limit, offset, argsOf_clause]
  split <;> split <;> simp [groupBy, orderBy, tokArgs]

theorem Selector.argsOf_tokens (s : Selector) : argsOf (s.tokens r m) = s.arguments := by
  simp [tokens, arguments, s.argsOf_tail, tokArgs]

theorem Updater.argsOf_set (u : Updater) :
    argsOf (u.setTokens r m) = if u.assigns ≠ [] then u.assigns.flatMap u.assignArguments
      else (setFields m m.fields).map fun field => valueOf u.val field.goName := by
  have assign (a : Assignable) : argsOf (u.assignTokens r m a) = u.assignArguments a := by
    cases a <;> simp [assignTokens, assignArguments, tokArgs]
  have field (f : Field) : argsOf (u.fieldTokens r m f) = [valueOf u.val f.goName] := by
    simp [fieldTokens, tokArgs]
  have increment : argsOf (u.incrementTokens m) = [] := by
    unfold incrementTokens
    split
    · rfl
    · split <;> rfl
  have fullIncrement : argsOf (fullIncrementTokens m) = [] := by
    unfold fullIncrementTokens
    split
    · rfl
    · split <;> rfl
  unfold setTokens
  split
  · simp [argsOf_sepTokens, assign, increment, tokArgs]
  · simp [argsOf_sepTokens, field, fullIncrement, tokArgs, List.map_eq_flatMap]

theorem Updater.argsOf_tokens (u : Updater) : argsOf (u.tokens r m) = u.arguments m := by
  have guard : argsOf (u.guardTokens m) =
      (match m.versionField, u.val with
        | some version, some val => [.int (versionOf val version)]
        | _, _ => []) := by
    unfold guardTokens
    cases m.versionField with
    | none => rfl
    | some =>
      cases u.val with
      | none => rfl
      | some =>
        simp only [argsOf_cons, argsOf_nil]
        split <;> rfl
  simp [tokens, arguments, u.argsOf_set, guard, tokArgs]

theorem Deleter.argsOf_tokens (d : Deleter) (now : Int) :
    argsOf (d.tokens r m now) = d.arguments m now := by
  have table : argsOf (d.tableTokens m) = [] := d.tableTokens_args m
  unfold tokens arguments
  cases m.deletedAtField <;> simp [table, tokArgs]

theorem Dialect.argsOf_assigns (d : Dialect) (first : Bool) (assigns : List Assignable) :
    argsOf (d.assignsTokens r m first assigns) = upsertArguments assigns := by
  have comma (first : Bool) : argsOf (if first then [] else [.kw .comma]) = [] := by
    cases first <;> rfl
  induction assigns generalizing first with
  | nil => cases first <;> rfl
  | cons assign rest ih =>
    cases assign with
    | assignment => simp [assignsTokens, upsertArguments, comma]
    | column =>
      have column (field : Field) : argsOf (d.columnTokens field) = [] := d.columnTokens_args field
      simp only [assignsTokens, upsertArguments, argsOf_append, comma, ih]
      split <;> simp [column]

theorem Dialect.argsOf_upsert (d : Dialect) (upsert : Upsert) :
    argsOf (d.upsertTokens r m upsert) = upsertArguments upsert.assigns := by
  cases d <;> simp [upsertTokens, argsOf_assigns, argsOf_sepTokens, tokArgs]

theorem Inserter.argsOf_tokens (i : Inserter) : argsOf (i.tokens r m) = i.arguments m := by
  have row (val : Option Instance) : argsOf (i.rowTokens m val) =
      (i.insertFields m).map fun field => valueOf val field.goName := by
    simp [rowTokens, argsOf_sepTokens, tokArgs, List.map_eq_flatMap]
  have upsert : argsOf (i.upsertTokens r m) =
      (match i.upsert with
        | none => []
        | some upsert => upsertArguments upsert.assigns) := by
    unfold upsertTokens
    cases i.upsert with
    | none => rfl
    | some upsert => exact i.dialect.argsOf_upsert upsert
  have head : argsOf (i.headTokens m) = [] := i.headTokens_args m
  simp [tokens, rowsTokens, arguments, head, upsert, argsOf_sepTokens, row, tokArgs]

theorem Statement.argsOf_tokens (st : Statement) (m : Model) (now : Int) :
    argsOf (st.tokens m now) = st.arguments m now := by
  cases st with
  | selector s => exact s.argsOf_tokens
  | updater u => exact u.argsOf_tokens
  | deleter d => exact d.argsOf_tokens now
  | inserter i => exact i.argsOf_tokens

end Soil.Orm
