import Mathlib.Algebra.Order.Group.Nat
import Soil.Orm.Builder

/-!
# Selector, Updater and Deleter

`Build` of the three statement builders that write a `WHERE` clause.
-/

namespace Soil.Orm

open Sql

/-! ## SELECT -/

structure Selector where
  builder : Builder
  entity : String
  table : TableReference := .nil
  where_ : List Predicate := []
  columns : List Selectable := []
  groupBy : List Column := []
  having : List Predicate := []
  orderBy : List OrderBy := []
  offset : Int := 0
  limit : Int := 0

def buildSelectable (b : Builder) : Selectable → Build
  | .column c => buildColumn b c
  | .aggregate a => buildAggregate b a
  -- raw text stands in the select list without parentheses
  | .raw raw args => .ok ((b.write [.raw raw args]).addArgs args)

def buildColumns (b : Builder) (columns : List Selectable) : Build :=
  if columns = [] then .ok (b.write [.kw .star])
  else buildSep [.kw .comma] buildSelectable b columns

def buildUsing (using_ : List String) (b : Builder) : Build := do
  let b ← buildSep [.kw .commaBlank] buildColumn (b.write [.kw .using_, .lpar]) (using_.map col)
  .ok (b.write [.rpar])

def buildTable (b : Builder) : TableReference → Build
  | .nil =>
    match b.model with
    | none => .error (.panic, b)
    | some m => .ok (b.write [.ident m.tableName])
  | .table t =>
    match b.r t.entity with
    | .error e => .error (e, b)
    | .ok tm =>
      let b := b.write [.ident tm.tableName]
      .ok (if t.aliasName ≠ "" then b.write [.alias, .ident t.aliasName] else b)
  | .join left typ right on using_ => do
      let b ← buildTable (b.write [.lpar]) left
      let b ← buildTable (b.write [.kw (.join typ)]) right
      let b ← buildIf (using_ ≠ []) (buildUsing using_) b
      let b ← buildIf (on ≠ []) (fun b => buildPredicates (b.write [.kw .on]) on) b
      .ok (b.write [.rpar])
  | .other => .error (.unsupportedTable, b)

def buildOrderBy (b : Builder) (orderBy : List OrderBy) : Build :=
  buildSep [.kw .comma] (fun b o => do
    let b ← buildColumn b (col o.col)
    .ok (b.write [.kw (.order o.order)])) b orderBy

def Selector.buildGroupBy (s : Selector) (b : Builder) : Build :=
  buildSep [.kw .comma] buildColumn (b.write [.kw .groupBy]) s.groupBy

def Selector.buildLimit (s : Selector) (b : Builder) : Builder :=
  if 0 < s.limit then (b.write [.kw .limit, .ph (.int s.limit)]).addArgs [.int s.limit]
  -- MySQL has no OFFSET without a LIMIT
  else if 0 < s.offset then b.write [.kw .limitMax]
  else b

def Selector.buildOffset (s : Selector) (b : Builder) : Builder :=
  if 0 < s.offset then (b.write [.kw .offset, .ph (.int s.offset)]).addArgs [.int s.offset]
  else b

def Selector.buildTail (s : Selector) (b : Builder) : Build := do
  let b ← buildIf (s.groupBy ≠ []) s.buildGroupBy b
  let b ← buildIf (s.having ≠ []) (fun b => buildPredicates (b.write [.kw .having]) s.having) b
  let b ← buildIf (s.orderBy ≠ []) (fun b => buildOrderBy (b.write [.kw .orderBy]) s.orderBy) b
  .ok ((s.buildOffset (s.buildLimit b)).write [.kw .semicolon])

def Selector.buildHead (s : Selector) (b : Builder) : Build := do
  let b ← buildColumns (b.write [.kw .select]) s.columns
  buildTable (b.write [.kw .from_]) s.table

def Builder.loadModel (b : Builder) (entity : String) : Build :=
  match b.r entity with
  | .error e => .error (e, { b with model := none })
  | .ok m => .ok { b with model := some m }

def Selector.build (s : Selector) : Build := do
  let b ← s.builder.loadModel s.entity
  let b ← s.buildHead b
  let b ← buildWhereWithSoftDelete b s.where_
  s.buildTail b

/-! ## UPDATE -/

/-- A struct instance: its field values and the names of their types, by Go name.
An unexported field is not settable, and `holdsTime` tells of a field whose type is an
interface that `time.Time` implements. -/
structure Instance where
  field : String → Option GoAny
  typeName : String → String := fun _ => ""
  settable : String → Bool := fun _ => true
  holdsTime : String → Bool := fun _ => false

inductive ValCreator where
  | unsafeValue
  | reflectValue

def getFieldValue (v : ValCreator) (val : Option Instance) (m : Model) (name : String) :
    Except OrmErr GoAny :=
  match v, val with
  | .unsafeValue, none =>
    .error (if (m.fieldMap name).isSome then .nilValue name else .unknownField name)
  | .reflectValue, none => .error .panic
  | _, some inst =>
    match inst.field name with
    | none => .error (.unknownField name)
    | some x => .ok x

def toInt64 (n : Nat) : Int := (n : Int).bmod (2 ^ 64)

def readVersionFromVal (val : Instance) (field : Field) : Except OrmErr Int :=
  match val.field field.goName with
  | none => .error (.unknownField field.goName)
  | some (.int i) => .ok i
  | some (.uint n) => .ok (toInt64 n)
  | some _ => .error (.versionKind field.goName (val.typeName field.goName))

structure Updater where
  builder : Builder
  entity : String
  valCreator : ValCreator := .unsafeValue
  assigns : List Assignable := []
  val : Option Instance := none
  where_ : List Predicate := []

def Updater.versionColumnExplicitlySet (u : Updater) (version : Field) : Bool :=
  u.assigns.any fun
    | .assignment column _ => column = version.goName
    | .column c => c.name = version.goName

def liftErr {α : Type} (b : Builder) : Except OrmErr α → Except (OrmErr × Builder) α
  | .ok a => .ok a
  | .error e => .error (e, b)

def incrementVersion (version : Field) : List Tok :=
  [.ident version.colName, .eqSign, .ident version.colName, .kw .plusOne]

def Updater.buildAssign (u : Updater) (m : Model) (b : Builder) : Assignable → Build
  | .assignment column val => buildAssignment b column val
  | .column c => do
      let res ← liftErr b (getFieldValue u.valCreator u.val m c.name)
      let b ← buildColumn b (col c.name)
      .ok ((b.write [.eqSign, .ph res]).addArgs [res])

def Updater.buildField (u : Updater) (m : Model) (state : Builder × Bool) (field : Field) :
    Except (OrmErr × Builder) (Builder × Bool) :=
  let (b, first) := state
  if m.versionField.map Field.goName = some field.goName then .ok (b, first)
  else do
    let b := if first then b else b.write [.kw .comma]
    let b ← buildColumn b (col field.goName)
    -- the text of the assignment is written before the value is read
    let v ← liftErr (b.write [.eqSign, .ph .nil])
      (getFieldValue u.valCreator u.val m field.goName)
    .ok ((b.write [.eqSign, .ph v]).addArgs [v], false)

def Updater.buildSet (u : Updater) (m : Model) (b : Builder) : Build :=
  if u.assigns ≠ [] then do
    let b ← buildSep [.kw .comma] (u.buildAssign m) (b.write [.kw .set]) u.assigns
    match m.versionField with
    | some version =>
      if u.val.isSome ∧ !u.versionColumnExplicitlySet version then
        .ok (b.write (.kw .comma :: incrementVersion version))
      else .ok b
    | none => .ok b
  else if u.val.isNone then .error (.noUpdate, b)
  else do
    let (b, first) ← m.fields.foldlM (u.buildField m) (b.write [.kw .set], true)
    match m.versionField with
    | some version =>
      .ok (b.write ((if first then [] else [.kw .comma]) ++ incrementVersion version))
    | none => .ok b

def Updater.buildVersionGuard (u : Updater) (m : Model) (b : Builder) : Build :=
  match m.versionField, u.val with
  | some version, some val => do
      let hasWhere := m.deletedAtField.isSome ∨ u.where_ ≠ []
      let b := b.write [if hasWhere then .and else .kw .where_]
      let verVal ← liftErr (b.write [.ident version.colName, .eqSign, .ph .nil])
        (readVersionFromVal val version)
      .ok ((b.write [.ident version.colName, .eqSign, .ph (.int verVal)]).addArgs [.int verVal])
  | _, _ => .ok b

def Updater.build (u : Updater) : Build :=
  match u.builder.r u.entity with
  | .error e => .error (e, { u.builder with model := none })
  | .ok m => do
      let b : Builder := { u.builder with model := some m }
      let b ← u.buildSet m (b.write [.kw .update, .ident m.tableName])
      let b ← buildWhereWithSoftDelete b u.where_
      let b ← u.buildVersionGuard m b
      .ok (b.write [.kw .semicolon])

/-! ## DELETE -/

structure Deleter where
  builder : Builder
  entity : String
  tableName : String := ""
  where_ : List Predicate := []

def Deleter.tableTokens (d : Deleter) (m : Model) : List Tok :=
  if d.tableName = "" then [.ident m.tableName] else [.raw d.tableName []]

def Deleter.buildSoftDelete (d : Deleter) (m : Model) (deletedAt : Field) (now : Int)
    (b : Builder) : Build := do
  let b := b.write (.kw .update :: d.tableTokens m ++
    [.kw .set, .ident deletedAt.colName, .eqSign, .ph (.time now)])
  let b ← buildWhereWithSoftDelete (b.addArgs [.time now]) d.where_
  .ok (b.write [.kw .semicolon])

def Deleter.build (d : Deleter) (now : Int) : Build :=
  match d.builder.r d.entity with
  | .error e => .error (e, { d.builder with model := none })
  | .ok m =>
    let b : Builder := { d.builder with model := some m }
    match m.deletedAtField with
    | some deletedAt => d.buildSoftDelete m deletedAt now b
    | none => do
        let b := b.write (.kw .deleteFrom :: d.tableTokens m)
        let b ← buildIf (d.where_ ≠ [])
          (fun b => buildPredicates (b.write [.kw .where_]) d.where_) b
        .ok (b.write [.kw .semicolon])

end Soil.Orm
