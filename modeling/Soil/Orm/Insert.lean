import Soil.Orm.Statement

/-!
# Inserter

`Build` of the builder for `INSERT`, with the `UPSERT` clauses of the two dialects, and
the fields `Exec` fills in before it.
-/

namespace Soil.Orm

open Sql

/-! ## UPSERT -/

structure Upsert where
  conflictColumns : List String := []
  assigns : List Assignable := []

inductive Dialect where
  | mysql
  | sqlite
  deriving DecidableEq, Repr

def Dialect.quoter : Dialect → Char
  | .mysql => '`'
  | .sqlite => '`'

def Dialect.columnTokens (field : Field) : Dialect → List Tok
  | .mysql =>
    [.ident field.colName, .eqSign, .kw .valuesOf, .lpar, .ident field.colName, .rpar]
  | .sqlite => [.ident field.colName, .eqSign, .kw .excluded, .dot, .ident field.colName]

/-- The loop over the assignments; `first` is false once one was written.  It returns
with the first `Assignment` it comes to: what follows that one is not written. -/
def Dialect.buildAssigns (d : Dialect) : Bool → Builder → List Assignable → Build
  | _, b, [] => .ok b
  | first, b, assign :: rest =>
    let b := if first then b else b.write [.kw .comma]
    match assign with
    | .assignment column val => buildAssignment b column val
    | .column c =>
      match b.model with
      | none => .error (.panic, b)
      | some m =>
        match m.fieldMap c.name with
        | none => .error (.unknownField c.name, b)
        | some field => d.buildAssigns false (b.write (d.columnTokens field)) rest

def Dialect.buildUpsert (d : Dialect) (b : Builder) (upsert : Upsert) : Build :=
  match d with
  | .mysql => d.buildAssigns true (b.write [.kw .onDuplicateKey]) upsert.assigns
  | .sqlite => do
      let b ← buildSep [.kw .comma] buildColumn (b.write [.kw .onConflict, .lpar])
        (upsert.conflictColumns.map col)
      d.buildAssigns true (b.write [.rpar, .kw .doUpdateSet]) upsert.assigns

/-! ## INSERT -/

structure Inserter where
  builder : Builder
  entity : String
  dialect : Dialect
  valCreator : ValCreator := .unsafeValue
  values : List (Option Instance) := []
  columns : List String := []
  chunkSize : Int := 0
  upsert : Option Upsert := none

def Inserter.findField (m : Model) (b : Builder) (col : String) :
    Except (OrmErr × Builder) Field :=
  match m.fieldMap col with
  | none => .error (.unknownField col, b)
  | some field => .ok field

def Inserter.fields (i : Inserter) (m : Model) (b : Builder) :
    Except (OrmErr × Builder) (List Field) :=
  if i.columns ≠ [] then i.columns.mapM (Inserter.findField m b) else .ok m.fields

def Inserter.buildNames (fields : List Field) (b : Builder) : Build :=
  buildSep [.kw .comma] (fun b field => .ok (b.write [.ident field.colName])) b fields

def Inserter.buildValue (i : Inserter) (m : Model) (val : Option Instance) (b : Builder)
    (field : Field) : Build := do
  let fdVal ← liftErr (b.write [.ph .nil]) (getFieldValue i.valCreator val m field.goName)
  .ok ((b.write [.ph fdVal]).addArgs [fdVal])

def Inserter.buildRow (i : Inserter) (m : Model) (fields : List Field) (b : Builder)
    (val : Option Instance) : Build := do
  let b ← buildSep [.kw .comma] (i.buildValue m val) (b.write [.lpar]) fields
  .ok (b.write [.rpar])

def Inserter.buildUpsert (i : Inserter) (b : Builder) : Build :=
  match i.upsert with
  | none => .ok b
  | some upsert => i.dialect.buildUpsert b upsert

def Inserter.buildRows (i : Inserter) (m : Model) (fields : List Field) (b : Builder) :
    Build := do
  let b ← buildSep [.kw .comma] (i.buildRow m fields) { b with args := [] } i.values
  let b ← i.buildUpsert b
  .ok (b.write [.kw .semicolon])

def Inserter.build (i : Inserter) : Build :=
  if i.values = [] then .error (.insertZeroRow, i.builder)
  else
    match i.builder.r i.entity with
    | .error e => .error (e, { i.builder with model := none })
    | .ok m => do
        let b : Builder := { i.builder with model := some m }
        let b := b.write [.kw .insertInto, .ident m.tableName, .lpar]
        let fields ← i.fields m b
        let b ← Inserter.buildNames fields b
        i.buildRows m fields (b.write [.rpar, .kw .values])

def splitChunk {α : Type} (values : List α) (size : Int) : List (List α) :=
  if size ≤ 0 ∨ values.length = 0 then [values] else values.toChunks size.toNat

end Soil.Orm
