import Soil.Basic
import Soil.Sql.Grammar

/-!
# Expressions, tables and models of the ORM

The data the query builders work on: model metadata, table references, the
`Expression` values a user can write and the constructors of `Predicate`.  A nil
interface value is the constructor `nil`.
-/

namespace Soil.Orm

inductive GoAny where
  | nil
  | int (i : Int)
  | uint (n : Nat)
  | str (s : String)
  | time (t : Int)
  | other (tag : Nat)
  deriving DecidableEq, Repr

/-! ## Model metadata -/

structure Field where
  colName : String
  goName : String
  deriving DecidableEq, Repr

structure Model where
  tableName : String
  fieldMap : String → Option Field
  fields : List Field
  createdAtField : Option Field := none
  updatedAtField : Option Field := none
  deletedAtField : Option Field
  versionField : Option Field

inductive OrmErr where
  | unknownField (field : String)
  | unsupportedExpression
  | unsupportedTable
  | pointerOnly
  | noUpdate
  | nilValue (field : String)
  | versionKind (field typ : String)
  | insertZeroRow
  | notSettable (field : String)
  | timestampKind (field typ : String)
  | integerKind (field typ : String)
  | optimisticLock
  | panic
  deriving DecidableEq, Repr

def OrmErr.message : OrmErr → String
  | .unknownField field => "orm: 未知字段 " ++ field
  | .unsupportedExpression => "orm: 不支持表达式类型"
  | .unsupportedTable => "orm: 不支持TableReference类型"
  | .pointerOnly => "orm: 只支持一级指针作为输入，例如*User"
  | .noUpdate => "orm: update 没有设置条件"
  | .nilValue field => "orm: 获取字段 " ++ field ++ " 的值失败，底层指针为 nil"
  | .versionKind field typ => "orm: 字段 " ++ field ++ " 类型 " ++ typ ++ " 不是整数族，无法作为版本字段"
  | .insertZeroRow => "orm: 插入0行"
  | .notSettable field => "orm: 字段 " ++ field ++ " 不可设置"
  | .timestampKind field typ => "orm: 字段 " ++ field ++ " 类型 " ++ typ ++ " 不支持设置时间戳"
  | .integerKind field typ => "orm: 字段 " ++ field ++ " 类型 " ++ typ ++ " 不支持设置整数值"
  | .optimisticLock => "orm: 乐观锁冲突"
  | .panic => "runtime error: invalid memory address or nil pointer dereference"

abbrev Registry := String → Except OrmErr Model

/-! ## Expressions -/

structure Table where
  entity : String
  aliasName : String := ""
  deriving DecidableEq, Repr

structure Column where
  name : String
  table : Option Table := none
  aliasName : String := ""
  deriving DecidableEq, Repr

structure Aggregate where
  fn : String
  arg : String
  aliasName : String := ""
  deriving DecidableEq, Repr

inductive Op where
  | none
  | eq
  | and
  | or
  | not
  | lt
  | gt
  | add
  | sub
  | multi
  | div
  deriving DecidableEq, Repr

inductive Expression where
  | nil
  | column (c : Column)
  | value (v : GoAny)
  | aggregate (a : Aggregate)
  | predicate (left : Expression) (op : Op) (right : Expression)
  | raw (raw : String) (args : List GoAny)
  | math (left : Expression) (op : Op) (right : Expression)
  deriving DecidableEq, Repr

structure Predicate where
  left : Expression
  op : Op
  right : Expression
  deriving DecidableEq, Repr

def Predicate.expr (p : Predicate) : Expression := .predicate p.left p.op p.right

inductive Arg where
  | expression (e : Expression)
  | plain (v : GoAny)
  deriving DecidableEq, Repr

def exprOf : Arg → Expression
  | .expression e => e
  | .plain v => .value v

def col (name : String) : Column := { name }

def Table.col (t : Table) (name : String) : Column := { name, table := some t }

def Column.as (c : Column) (name : String) : Column := { c with aliasName := name }

def Aggregate.as (a : Aggregate) (name : String) : Aggregate := { a with aliasName := name }

def avg (arg : String) : Aggregate := { fn := "AVG", arg }
def count (arg : String) : Aggregate := { fn := "COUNT", arg }
def sum (arg : String) : Aggregate := { fn := "SUM", arg }
def max (arg : String) : Aggregate := { fn := "MAX", arg }
def min (arg : String) : Aggregate := { fn := "MIN", arg }

def Column.eq (c : Column) (arg : Arg) : Predicate := ⟨.column c, .eq, exprOf arg⟩
def Column.gt (c : Column) (arg : Arg) : Predicate := ⟨.column c, .gt, exprOf arg⟩
def Column.lt (c : Column) (arg : Arg) : Predicate := ⟨.column c, .lt, exprOf arg⟩

def Aggregate.eq (a : Aggregate) (arg : Arg) : Predicate := ⟨.aggregate a, .eq, exprOf arg⟩
def Aggregate.gt (a : Aggregate) (arg : Arg) : Predicate := ⟨.aggregate a, .gt, exprOf arg⟩
def Aggregate.lt (a : Aggregate) (arg : Arg) : Predicate := ⟨.aggregate a, .lt, exprOf arg⟩

def not (p : Predicate) : Predicate := ⟨.nil, .not, p.expr⟩
def Predicate.and (l r : Predicate) : Predicate := ⟨l.expr, .and, r.expr⟩
def Predicate.or (l r : Predicate) : Predicate := ⟨l.expr, .or, r.expr⟩

def rawPredicate (raw : String) (args : List GoAny) : Predicate := ⟨.raw raw args, .none, .nil⟩

/-! ## What the exported constructors build -/

mutual

/-- An expression a comparison can have on its right: a plain value, a column, an
aggregate, a raw or math expression, or a predicate that was itself built. -/
inductive Operand : Expression → Prop
  | value (v : GoAny) : Operand (.value v)
  | column (c : Column) : Operand (.column c)
  | aggregate (a : Aggregate) : Operand (.aggregate a)
  | raw (raw : String) (args : List GoAny) : Operand (.raw raw args)
  | math (left : Expression) (op : Op) (right : Expression) : Operand (.math left op right)
  | predicate {left : Expression} {op : Op} {right : Expression} :
      Built ⟨left, op, right⟩ → Operand (.predicate left op right)

inductive Built : Predicate → Prop
  | columnEq (c : Column) {e : Expression} : Operand e → Built (c.eq (.expression e))
  | columnGt (c : Column) {e : Expression} : Operand e → Built (c.gt (.expression e))
  | columnLt (c : Column) {e : Expression} : Operand e → Built (c.lt (.expression e))
  | aggregateEq (a : Aggregate) {e : Expression} : Operand e → Built (a.eq (.expression e))
  | aggregateGt (a : Aggregate) {e : Expression} : Operand e → Built (a.gt (.expression e))
  | aggregateLt (a : Aggregate) {e : Expression} : Operand e → Built (a.lt (.expression e))
  | not {p : Predicate} : Built p → Built (not p)
  | and {l r : Predicate} : Built l → Built r → Built (l.and r)
  | or {l r : Predicate} : Built l → Built r → Built (l.or r)
  | raw (raw : String) (args : List GoAny) : Built (rawPredicate raw args)

end

/-! ## Table references and assignments -/

inductive TableReference where
  | nil
  | table (t : Table)
  | join (left : TableReference) (typ : String) (right : TableReference)
      (on : List Predicate) (using_ : List String)
  | other

inductive Selectable where
  | column (c : Column)
  | aggregate (a : Aggregate)
  | raw (raw : String) (args : List GoAny)

structure OrderBy where
  col : String
  order : String

inductive Assignable where
  | assignment (column : String) (val : Expression)
  | column (c : Column)

end Soil.Orm
