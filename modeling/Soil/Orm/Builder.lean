import Soil.Orm.Expression

/-!
# The statement builder

`builder` of the ORM: a string builder and an argument slice that every clause
appends to.  The text is kept as the sequence of lexical units it is written in;
`Builder.text` is the string itself.  A `?` carries the argument it was written
for, and `args` is the argument slice the code maintains separately.
-/

namespace Soil.Orm

open Sql

inductive Keyword where
  | select
  | star
  | comma
  | commaBlank
  | from_
  | where_
  | groupBy
  | having
  | orderBy
  | order (dir : String)
  | limit
  | limitMax
  | offset
  | join (typ : String)
  | using_
  | on
  | update
  | set
  | plusOne
  | deleteFrom
  | insertInto
  | values
  | onDuplicateKey
  | valuesOf
  | onConflict
  | doUpdateSet
  | excluded
  | arith (sign : String)
  | semicolon
  deriving DecidableEq, Repr

abbrev Tok := Token GoAny Keyword

def Keyword.text : Keyword → String
  | .select => "SELECT "
  | .star => "*"
  | .comma => ","
  | .commaBlank => ", "
  | .from_ => " FROM "
  | .where_ => " WHERE "
  | .groupBy => " GROUP BY "
  | .having => " HAVING "
  | .orderBy => " ORDER BY "
  | .order dir => " " ++ dir
  | .limit => " LIMIT "
  | .limitMax => " LIMIT 18446744073709551615"
  | .offset => " OFFSET "
  | .join typ => " " ++ typ ++ " "
  | .using_ => " USING "
  | .on => " ON "
  | .update => "UPDATE "
  | .set => " SET "
  | .plusOne => "+1"
  | .deleteFrom => "DELETE FROM "
  | .insertInto => "INSERT INTO "
  | .values => " VALUES "
  | .onDuplicateKey => " ON DUPLICATE KEY UPDATE "
  | .valuesOf => "VALUES"
  | .onConflict => " ON CONFLICT"
  | .doUpdateSet => " DO UPDATE SET "
  | .excluded => "excluded"
  | .arith sign => " " ++ sign ++ " "
  | .semicolon => ";"

def quote (quoter : Char) (name : String) : String :=
  String.ofList
    (quoter :: name.toList.flatMap (fun c => if c = quoter then [c, c] else [c]) ++ [quoter])

section

variable {α : Type} [DecidableEq α] (quoter : α) {name rest : List α}

def doubled (c : α) : List α := if c = quoter then [c, c] else [c]

/-- `quote` on a name of any bytes, or of characters.  An ASCII quoter is one byte of the text,
so `strings.ReplaceAll` doubles it wherever it stands. -/
def quoted (name : List α) : List α := quoter :: name.flatMap (doubled quoter) ++ [quoter]

/-- The name up to its closing quote, two quotes read as one, and what follows. -/
def readBody : List α → Option (List α × List α)
  | [] => none
  | [c] => if c = quoter then some ([], []) else none
  | c :: d :: s =>
    if c ≠ quoter then (readBody (d :: s)).map (Prod.map (c :: ·) id)
    else if d = quoter then (readBody s).map (Prod.map (c :: ·) id)
    else some ([], d :: s)

def readIdent : List α → Option (List α × List α)
  | [] => none
  | c :: s => if c = quoter then readBody quoter s else none

variable {quoter}

theorem readBody_doubled (ends : rest.head? ≠ some quoter) :
    readBody quoter (name.flatMap (doubled quoter) ++ quoter :: rest) = some (name, rest) := by
  induction name with
  | nil =>
    cases rest with
    | nil => simp [readBody]
    | cons => simpa [readBody] using ends
  | cons c name ih =>
    by_cases same : c = quoter
    · simp [doubled, same, readBody, ih]
    · obtain ⟨d, s, next⟩ : ∃ d s, name.flatMap (doubled quoter) ++ quoter :: rest = d :: s :=
        List.exists_cons_of_ne_nil (by simp)
      rw [next] at ih
      simp [doubled, same, next, readBody, ih]

theorem readIdent_quoted (quoter : α) (name : List α) :
    (∀ rest : List α, rest.head? ≠ some quoter →
      readIdent quoter (quoted quoter name ++ rest) = some (name, rest)) ∧
    (∀ other, quoted quoter other = quoted quoter name → other = name) ∧
    ∀ c s, (quote c s).toList = quoted c s.toList := by
  have read (name : List α) {rest : List α} (ends : rest.head? ≠ some quoter) :
      readIdent quoter (quoted quoter name ++ rest) = some (name, rest) := by
    simpa [quoted, readIdent] using readBody_doubled ends
  refine ⟨fun _ => read name, fun other same => ?_, fun c s => String.toList_ofList⟩
  have left := read other (show ([] : List α).head? ≠ some quoter by simp)
  rw [same, read name (by simp)] at left
  exact (Prod.mk.inj (Option.some.inj left)).1.symm

end

def Tok.text (quoter : Char) : Tok → String
  | .ident name => quote quoter name
  | .ph _ => "?"
  | .raw text _ => text
  | .func fn => fn
  | .lpar => "("
  | .rpar => ")"
  | .dot => "."
  | .cmp .eq => " = "
  | .cmp .gt => " > "
  | .cmp .lt => " < "
  | .eqSign => "="
  | .isNull => " IS NULL"
  | .and => " AND "
  | .or => " OR "
  | .not => " NOT "
  | .alias => " AS "
  | .kw k => k.text

structure Builder where
  r : Registry
  model : Option Model := none
  quoter : Char
  sql : List Tok := []
  args : List GoAny := []

def Builder.text (b : Builder) : String := String.join (b.sql.map (Tok.text b.quoter))

abbrev Build := Except (OrmErr × Builder) Builder

def Builder.write (b : Builder) (ts : List Tok) : Builder := { b with sql := b.sql ++ ts }

def Builder.addArgs (b : Builder) (vs : List GoAny) : Builder := { b with args := b.args ++ vs }

section

variable (b : Builder) (ts us : List Tok) (vs : List GoAny)

@[simp] theorem Builder.write_write : (b.write ts).write us = b.write (ts ++ us) := by
  simp [Builder.write]

end

def buildIf (c : Prop) [Decidable c] (f : Builder → Build) (b : Builder) : Build :=
  if c then f b else .ok b

def buildSep {α : Type} (sep : List Tok) (f : Builder → α → Build) : Builder → List α → Build
  | b, [] => .ok b
  | b, x :: xs => do
      let b ← f b x
      xs.foldlM (fun b y => f (b.write sep) y) b

/-! ## Columns, aggregates and expressions -/

def buildColumn (b : Builder) (c : Column) : Build :=
  match c.table with
  | none =>
    match b.model with
    | none => .error (.panic, b)
    | some m =>
      match m.fieldMap c.name with
      | none => .error (.unknownField c.name, b)
      | some field =>
        let b := b.write [.ident field.colName]
        .ok (if c.aliasName ≠ "" then b.write [.alias, .ident c.aliasName] else b)
  | some t =>
    match b.r t.entity with
    | .error e => .error (e, b)
    | .ok tm =>
      match tm.fieldMap c.name with
      | none => .error (.unknownField c.name, b)
      | some field =>
        -- a qualified column is written without its alias
        let qualifier := if t.aliasName = "" then tm.tableName else t.aliasName
        .ok (b.write [.ident qualifier, .dot, .ident field.colName])

def buildAggregate (b : Builder) (a : Aggregate) : Build := do
  let b ← buildColumn (b.write [.func a.fn, .lpar]) { name := a.arg }
  let b := b.write [.rpar]
  .ok (if a.aliasName ≠ "" then b.write [.alias, .ident a.aliasName] else b)

def buildOperand (b : Builder) : Expression → Build
  | .nil => .ok b
  | .column c => buildColumn b { c with aliasName := "" }
  | .value v => .ok ((b.write [.ph v]).addArgs [v])
  | .aggregate a => buildAggregate b a
  | .raw raw args => .ok (((b.write [.lpar, .raw raw args]).addArgs args).write [.rpar])
  | _ => .error (.unsupportedExpression, b)

def Op.tokens : Op → List Tok
  | .none => []
  | .eq => [.cmp .eq]
  | .gt => [.cmp .gt]
  | .lt => [.cmp .lt]
  | .and => [.and]
  | .or => [.or]
  | .not => [.not]
  | .add => [.kw (.arith "+")]
  | .sub => [.kw (.arith "-")]
  | .multi => [.kw (.arith "*")]
  | .div => [.kw (.arith "/")]

def buildSubExpr (b : Builder) : Expression → Build
  | .predicate left op right => do
      let b ← buildSubExpr (b.write [.lpar]) left
      let b := b.write op.tokens
      let b ← match right with
        | .nil => .ok b
        | right => buildSubExpr b right
      .ok (b.write [.rpar])
  | e => buildOperand b e

def buildBinaryExpr (b : Builder) (left : Expression) (op : Op) (right : Expression) : Build := do
  let b ← buildSubExpr b left
  let b := b.write op.tokens
  match right with
  | .nil => .ok b
  | right => buildSubExpr b right

def buildExpression (b : Builder) : Expression → Build
  | .predicate left op right => buildBinaryExpr b left op right
  | e => buildOperand b e

def buildPredicates (b : Builder) : List Predicate → Build
  | [] => .error (.panic, b)
  | p :: ps => buildExpression b (ps.foldl Predicate.and p).expr

def buildAssignment (b : Builder) (column : String) (val : Expression) : Build := do
  let b ← buildColumn b (col column)
  buildExpression (b.write [.eqSign]) val

def buildWhereWithSoftDelete (b : Builder) (where_ : List Predicate) : Build :=
  let deletedAt := b.model.bind Model.deletedAtField
  if deletedAt = none ∧ where_ = [] then .ok b
  else
    let b := b.write [.kw .where_]
    let b := match deletedAt with
      | none => b
      | some field => b.write [.ident field.colName, .isNull]
    if where_ = [] then .ok b
    else buildPredicates (if deletedAt = none then b else b.write [.and]) where_

end Soil.Orm
