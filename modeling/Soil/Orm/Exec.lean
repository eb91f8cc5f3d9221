import Soil.Orm.Insert

/-!
# `Exec` and `Get`

How a statement reaches the session: the fields that are filled in and the hooks that
run first, the chain of middlewares around the handler, and the handler, which calls
`Build` and sends what it returns.  The middlewares call `Build` on the same object.
-/

namespace Soil.Orm

structure Query where
  sql : String
  args : List GoAny
  deriving DecidableEq, Repr

/-! ## The query builders -/

inductive Statement where
  | selector (s : Selector)
  | updater (u : Updater)
  | deleter (d : Deleter)
  | inserter (i : Inserter)

namespace Statement

def builder : Statement → Builder
  | .selector s => s.builder
  | .updater u => u.builder
  | .deleter d => d.builder
  | .inserter i => i.builder

def entity : Statement → String
  | .selector s => s.entity
  | .updater u => u.entity
  | .deleter d => d.entity
  | .inserter i => i.entity

def withBuilder (b : Builder) : Statement → Statement
  | .selector s => .selector { s with builder := b }
  | .updater u => .updater { u with builder := b }
  | .deleter d => .deleter { d with builder := b }
  | .inserter i => .inserter { i with builder := b }

@[simp] theorem withBuilder_builder (st : Statement) (b : Builder) :
    (st.withBuilder b).builder = b := by
  cases st <;> rfl

@[simp] theorem withBuilder_entity (st : Statement) (b : Builder) :
    (st.withBuilder b).entity = st.entity := by
  cases st <;> rfl

def run (now : Int) : Statement → Build
  | .selector s => s.build
  | .updater u => u.build
  | .deleter d => d.build now
  | .inserter i => i.build

def build (now : Int) (st : Statement) : Except OrmErr Query × Statement :=
  match st.run now with
  | .ok b => (.ok ⟨b.text, b.args⟩, st.withBuilder b)
  | .error (e, b) => (.error e, st.withBuilder b)

end Statement

inductive QueryBuilder where
  | statement (st : Statement)
  | chunk (query : Query)

def QueryBuilder.build (now : Int) : QueryBuilder → Except OrmErr Query × QueryBuilder
  | .statement st => ((st.build now).1, .statement (st.build now).2)
  | .chunk query => (.ok query, .chunk query)

/-! ## Handlers and middlewares -/

inductive ExecErr where
  | orm (err : OrmErr)
  | session (message : String)
  | hook (message : String)
  deriving DecidableEq, Repr

structure Hooks where
  beforeInsert : Option Instance → Except String (Option Instance) := .ok
  beforeUpdate : Instance → Except String Instance := .ok
  beforeQuery : Except String Unit := .ok ()

/-- What the code runs in.  The session answers the last of the queries it was sent with
a number of rows, and `clock n` is the time at the call number `n` of `Build`. -/
structure Env where
  session : List Query → Except String Nat
  clock : Nat → Int
  hooks : Hooks := {}

structure World where
  queryBuilder : QueryBuilder
  sent : List Query := []
  builds : Nat := 0

def World.build (env : Env) (w : World) : Except OrmErr Query × World :=
  let built := w.queryBuilder.build (env.clock w.builds)
  (built.1, { w with queryBuilder := built.2, builds := w.builds + 1 })

abbrev Handler := World → Except ExecErr Nat × World

def execHandler (env : Env) : Handler := fun w =>
  match w.build env with
  | (.error err, w) => (.error (.orm err), w)
  | (.ok query, w) =>
    let sent := w.sent ++ [query]
    ((env.session sent).mapError .session, { w with sent })

def getHandler (env : Env) : Handler := fun w =>
  match env.hooks.beforeQuery with
  | .error err => (.error (.hook err), w)
  | .ok () => execHandler env w

inductive Middleware where
  | queryLog
  | slowQuery (slow : Bool)
  | openTelemetry
  deriving DecidableEq, Repr

def Middleware.wrap (env : Env) (next : Handler) : Middleware → Handler
  | .queryLog => fun w =>
    match w.build env with
    | (.error err, w) => (.error (.orm err), w)
    | (.ok _, w) => next w
  -- the deferred function runs after the query was sent
  | .slowQuery slow => fun w =>
    let res := next w
    if slow then (res.1, (res.2.build env).2) else res
  -- an error of `Build` is ignored here
  | .openTelemetry => fun w => next (w.build env).2

def chain (env : Env) (middlewares : List Middleware) (root : Handler) : Handler :=
  middlewares.foldr (fun middleware next => middleware.wrap env next) root

/-! ## Before the handlers -/

def GoAny.isZero : GoAny → Bool
  | .nil => true
  | .int i => i = 0
  | .uint n => n = 0
  | .str s => s = ""
  | .time t => t = 0
  | .other _ => false

def Instance.set (val : Instance) (name : String) (v : GoAny) : Instance :=
  { val with field := fun other => if other = name then some v else val.field other }

def setTimestampField (val : Instance) (field : Field) (now : Int) : Except OrmErr Instance :=
  let typ := val.typeName field.goName
  if (val.field field.goName).isNone then .error (.unknownField field.goName)
  else if !val.settable field.goName then .error (.notSettable field.goName)
  else if typ = "time.Time" ∨ typ = "*time.Time" ∨ val.holdsTime field.goName then
    .ok (val.set field.goName (.time now))
  else .error (.timestampKind field.goName typ)

def isFieldZero (val : Instance) (field : Field) : Bool :=
  match val.field field.goName with
  | none => true
  | some v => v.isZero

def setIntFieldIfZero (val : Instance) (field : Field) (v : Nat) : Except OrmErr Instance :=
  match val.field field.goName with
  | none => .error (.unknownField field.goName)
  | some x =>
    if !val.settable field.goName then .error (.notSettable field.goName)
    else if !x.isZero then .ok val
    else
      match x with
      | .int _ => .ok (val.set field.goName (.int v))
      | .uint _ => .ok (val.set field.goName (.uint v))
      | _ => .error (.integerKind field.goName (val.typeName field.goName))

def deref (f : Instance → Except OrmErr Instance) :
    Option Instance → Except OrmErr (Option Instance)
  | none => .error .panic
  | some val => (f val).map some

def fillField (field : Option Field) (f : Field → Instance → Except OrmErr Instance)
    (values : List (Option Instance)) : Except OrmErr (List (Option Instance)) :=
  match field with
  | none => .ok values
  | some field => values.mapM (deref (f field))

def Inserter.prepare (hooks : Hooks) (now : Int) (i : Inserter) : Except ExecErr Inserter := do
  let m ← (i.builder.r i.entity).mapError .orm
  let values ← (i.values.mapM hooks.beforeInsert).mapError .hook
  let values ← (fillField m.createdAtField (fun field val =>
    if isFieldZero val field then setTimestampField val field now else .ok val)
    values).mapError .orm
  let values ← (fillField m.versionField (fun field val => setIntFieldIfZero val field 1)
    values).mapError .orm
  .ok { i with builder := { i.builder with model := some m }, values }

def Assignable.isOf (goName : String) : Assignable → Bool
  | .assignment name _ => name = goName
  | .column c => c.name = goName

def Updater.withUpdatedAt (u : Updater) (field : Field) (now : Int) : List Assignable :=
  if u.assigns ≠ [] ∧ !u.assigns.any (Assignable.isOf field.goName) then
    u.assigns ++ [.assignment field.goName (.value (.time now))]
  else u.assigns

def Updater.prepare (hooks : Hooks) (now : Int) (u : Updater) : Except ExecErr Updater := do
  let m ← (u.builder.r u.entity).mapError .orm
  let val ← (u.val.mapM hooks.beforeUpdate).mapError .hook
  let u := { u with builder := { u.builder with model := some m }, val }
  match m.updatedAtField with
  | none => .ok u
  | some field =>
    let val ← (u.val.mapM fun val => setTimestampField val field now).mapError .orm
    .ok { u with val, assigns := u.withUpdatedAt field now }

/-! ## `Exec` -/

def Inserter.execChunked (env : Env) (middlewares : List Middleware) :
    Inserter → List (List (Option Instance)) → List Query → Nat →
      Except ExecErr Nat × List Query
  | _, [], sent, rows => (.ok rows, sent)
  | i, chunk :: rest, sent, rows =>
    let i := { i with values := chunk, builder := { i.builder with sql := [] } }
    match i.build with
    | .error (err, _) => (.error (.orm err), sent)
    | .ok b =>
      let res := chain env middlewares (execHandler env)
        { queryBuilder := .chunk ⟨b.text, b.args⟩, sent }
      match res.1 with
      | .error err => (.error err, res.2.sent)
      | .ok n => execChunked env middlewares { i with builder := b } rest res.2.sent (rows + n)

def Statement.handle (env : Env) (middlewares : List Middleware) (root : Handler)
    (st : Statement) : Except ExecErr Nat × List Query :=
  let res := chain env middlewares root { queryBuilder := .statement st }
  (res.1, res.2.sent)

def Updater.checkLock (u : Updater) : Except ExecErr Nat → Except ExecErr Nat
  | .ok affected =>
    if (u.builder.model.bind Model.versionField).isSome ∧ u.val.isSome ∧ affected = 0 then
      .error (.orm .optimisticLock)
    else .ok affected
  | .error err => .error err

def Statement.exec (env : Env) (middlewares : List Middleware) (now : Int) :
    Statement → Except ExecErr Nat × List Query
  | .selector s =>
    match s.builder.r s.entity with
    | .error err => (.error (.orm err), [])
    | .ok m =>
      let s := { s with builder := { s.builder with model := some m } }
      (Statement.selector s).handle env middlewares (getHandler env)
  | .deleter d =>
    match d.builder.r d.entity with
    | .error err => (.error (.orm err), [])
    | .ok m =>
      let d := { d with builder := { d.builder with model := some m } }
      (Statement.deleter d).handle env middlewares (execHandler env)
  | .updater u =>
    match u.prepare env.hooks now with
    | .error err => (.error err, [])
    | .ok u =>
      let res := (Statement.updater u).handle env middlewares (execHandler env)
      (u.checkLock res.1, res.2)
  | .inserter i =>
    match i.prepare env.hooks now with
    | .error err => (.error err, [])
    | .ok i =>
      if 0 < i.chunkSize ∧ i.chunkSize < i.values.length then
        i.execChunked env middlewares (splitChunk i.values i.chunkSize) [] 0
      else (Statement.inserter i).handle env middlewares (execHandler env)

end Soil.Orm
