import Soil.Orm.Database
import Soil.Orm.Repeat
import Soil.System

/-!
# Optimistic locking

Clients read a row and write it back with one update each, in any order.  The database
executes the updates one after the other; a client whose row was written since it read it
gets `ErrOptimisticLock`.
-/

namespace Soil.Orm

open List Database Updater Middleware Instance Function

open Sql

variable {SqlVal : Type}

/-! ## One `Exec` -/

def Updater.statement (now : Int) (u : Updater) : List Tok :=
  match u.prepare {} now with
  | .error _ => []
  | .ok u =>
    match (Statement.updater u).run now with
    | .ok b => b.sql
    | .error _ => []

structure Fault where
  message : String
  applied : Bool

structure Outcome (SqlVal : Type) where
  result : Except ExecErr Nat
  answered : Bool := false
  rows : List Nat := []
  table : List (Row SqlVal)

namespace Database

variable (db : Database SqlVal)

def answer (fault : Option Fault) (written : Option (List Nat × List (Row SqlVal))) :
    Except String Nat :=
  match fault, written with
  | some fault, _ => .error fault.message
  | none, some (rows, _) => .ok rows.length
  | none, none => .error "syntax error"

def respond (fault : Option Fault) (written : Option (List Nat × List (Row SqlVal)))
    (result : Except ExecErr Nat) (table : List (Row SqlVal)) : Outcome SqlVal :=
  match fault, written with
  | none, some (rows, table') => ⟨result, true, rows, table'⟩
  | some ⟨_, true⟩, some (rows, table') => ⟨result, false, rows, table'⟩
  | _, _ => { result, table }

def exec (middlewares : List Middleware) (fault : Option Fault) (now : Int) (u : Updater)
    (table : List (Row SqlVal)) : Outcome SqlVal :=
  let written := db.update (u.statement now) table
  let env : Env := ⟨fun _ => answer fault written, fun _ => now, {}⟩
  let res := (Statement.updater u).exec env middlewares now
  if res.2 = [] then { result := res.1, table } else respond fault written res.1 table

end Database

variable {db : Database SqlVal} {sch : Schema} {id : GoAny} {val : Instance} {u : Updater}
  {middlewares : List Middleware} {fault : Option Fault} {now : Int} {table : List (Row SqlVal)}

structure Updater.New (sch : Schema) (u : Updater) : Prop where
  registry : u.builder.r = sch.r
  empty : u.builder.sql = []
  entity : u.entity = sch.entity

variable {field : Field}

theorem setTimestampField_ok {val' : Instance} (ran : setTimestampField val field now = .ok val') :
    val' = val.set field.goName (.time now) := by
  simp only [setTimestampField] at ran
  split at ran
  · cases ran
  split at ran
  · cases ran
  · split at ran
    · cases ran
      rfl
    · cases ran

variable {u' : Updater}

theorem Updater.prepare_ok (new : u.New sch) (given : u.val = some val)
    (ran : u.prepare {} now = .ok u') :
    u' = { u with builder := { u.builder with model := some sch.m } } ∨
      ∃ field ∈ sch.m.updatedAtField,
        u' = { u with builder := { u.builder with model := some sch.m },
                      val := some (val.set field.goName (.time now)),
                      assigns := u.withUpdatedAt field now } := by
  obtain ⟨m, model, ran⟩ := bind_eq_ok.mp ran
  rw [new.registry, new.entity, sch.registered] at model
  cases model
  obtain ⟨val₁, hooks, ran⟩ := bind_eq_ok.mp ran
  rw [given] at hooks
  cases hooks
  split at ran
  case h_1 none_ =>
    cases ran
    exact .inl (by rw [given])
  case h_2 field updated =>
    obtain ⟨val₂, set, ran⟩ := bind_eq_ok.mp ran
    change (some <$> setTimestampField val field now).mapError ExecErr.orm = .ok val₂ at set
    cases stamped : setTimestampField val field now with
    | error =>
      rw [stamped] at set
      cases set
    | ok =>
      obtain rfl := setTimestampField_ok stamped
      rw [stamped] at set
      cases set
      cases ran
      exact .inr ⟨field, updated, rfl⟩

theorem Instance.set_of_ne {name other : String} (val : Instance) (v : GoAny)
    (ne : name ≠ other) : (val.set name v).field other = val.field other := by
  simp [set, ne.symm]

theorem Updater.mem_withUpdatedAt {a : Assignable} (inside : a ∈ u.withUpdatedAt field now) :
    u.assigns ≠ [] ∧ (a ∈ u.assigns ∨ a = .assignment field.goName (.value (.time now))) := by
  unfold withUpdatedAt at inside
  split at inside
  case isTrue some_ =>
    refine ⟨some_.1, ?_⟩
    rcases mem_append.mp inside with inside | inside
    · exact .inl inside
    · exact .inr (mem_singleton.mp inside)
  case isFalse => exact ⟨ne_nil_of_mem inside, .inl inside⟩

theorem Updater.ByKey.prepare (byKey : u.ByKey sch id val) (new : u.New sch)
    (ran : u.prepare {} now = .ok u') : u'.New sch ∧ u'.builder.model = some sch.m ∧
      (∃ val', u'.ByKey sch id val' ∧ versionOf val' sch.version = versionOf val sch.version) ∧
      (u.KeepsKey sch id → u'.KeepsKey sch id) := by
  rcases prepare_ok new byKey.given ran with rfl | ⟨field, updated, rfl⟩
  · exact ⟨⟨new.registry, new.empty, new.entity⟩, rfl,
      ⟨val, ⟨byKey.given, byKey.where_, byKey.implicit⟩, rfl⟩, fun keeps => keeps⟩
  obtain ⟨notVersion, notKey⟩ := sch.updated field updated
  have other {goName : String} (ne : field.goName ≠ goName)
      (before : ∀ a ∈ u.assigns, a.isOf goName = false) :
      ∀ a ∈ u.withUpdatedAt field now, a.isOf goName = false := by
    intro a inside
    rcases (mem_withUpdatedAt inside).2 with inside | rfl
    · exact before a inside
    · simp [Assignable.isOf, ne]
  refine ⟨⟨new.registry, new.empty, new.entity⟩, rfl,
    ⟨_, ⟨rfl, byKey.where_, other notVersion byKey.implicit⟩, ?_⟩, fun keeps => ?_⟩
  · simp [versionOf, set_of_ne val _ notVersion]
  unfold Updater.KeepsKey at keeps ⊢
  by_cases none_ : u.assigns = []
  · have none' : u.withUpdatedAt field now = [] := by simp [withUpdatedAt, none_]
    rw [if_pos none_, byKey.given] at keeps
    simp only [none', if_true]
    rw [← keeps]
    simp [valueOf, fieldOf, set_of_ne val _ notKey]
  · have some_ : u.withUpdatedAt field now ≠ [] := by
      unfold withUpdatedAt
      split <;> simp [none_]
    rw [if_neg none_] at keeps
    rw [if_neg some_]
    exact other notKey keeps

theorem Updater.exec_eq (env : Env) (later : middlewares.any buildsFirst = false)
    (prepared : u.prepare env.hooks now = .ok u') : (Statement.updater u).exec env middlewares now =
      match (Statement.updater u').run (env.clock 0) with
      | .error (err, _) => (u'.checkLock (.error (.orm err)), [])
      | .ok b =>
        (u'.checkLock ((env.session [⟨b.text, b.args⟩]).mapError .session),
          [⟨b.text, b.args⟩]) := by
  have through := fun w => @chain_transparent env middlewares (execHandler env) later w
  simp only [Statement.exec, prepared, Statement.handle, through]
  cases ran : (Statement.updater u').run (env.clock 0) with
  | error | ok =>
    simp [execHandler, World.build, QueryBuilder.build, Statement.build, ran]

theorem Updater.New.run_tokens (new : u.New sch) {b : Builder}
    (ran : (Statement.updater u).run now = .ok b) : b.sql = u.tokens sch.r sch.m := by
  obtain ⟨m, model, -, rfl⟩ := Statement.run_eq_ok _ ran
  simp only [Statement.builder, Statement.entity, new.registry, new.entity, sch.registered] at model
  cases model
  simp [Statement.start, Statement.builder, Statement.tokens, new.registry, new.empty]

theorem Updater.checkLock_ok (model : u.builder.model = some sch.m) (given : u.val = some val)
    (n : Nat) : u.checkLock (.ok n) = if n = 0 then .error (.orm .optimisticLock) else .ok n := by
  simp [checkLock, model, given, sch.versioned]

theorem Database.respond_cases (fault : Option Fault)
    (written : Option (List Nat × List (Row SqlVal))) (table : List (Row SqlVal))
    (model : u.builder.model = some sch.m) (given : u.val = some val) :
    let o := respond fault written
      (u.checkLock ((answer fault written).mapError .session)) table
    (o.answered = false ∧ (∃ err, o.result = .error err) ∧
        (o.rows = [] ∧ o.table = table ∨ written = some (o.rows, o.table))) ∨
      (o.answered = true ∧ written = some (o.rows, o.table) ∧
        o.result = if o.rows = [] then .error (.orm .optimisticLock) else .ok o.rows.length) := by
  cases written with
  | none =>
    left
    rcases fault with - | ⟨message, - | -⟩ <;> exact ⟨rfl, ⟨_, rfl⟩, .inl ⟨rfl, rfl⟩⟩
  | some written =>
    rcases fault with - | ⟨-, applied⟩
    · refine .inr ⟨rfl, rfl, ?_⟩
      change u.checkLock (.ok written.1.length) = _
      rw [checkLock_ok model given]
      simp only [length_eq_zero_iff]
      rfl
    · left
      cases applied with
      | true => exact ⟨rfl, ⟨_, rfl⟩, .inr rfl⟩
      | false => exact ⟨rfl, ⟨_, rfl⟩, .inl ⟨rfl, rfl⟩⟩

theorem Database.exec_cases (fault : Option Fault)
    (later : middlewares.any buildsFirst = false) (byKey : u.ByKey sch id val) (new : u.New sch) :
    let o := db.exec middlewares fault now u table
    let executed := ∃ u', u.prepare {} now = .ok u' ∧
      db.update (u'.tokens sch.r sch.m) table = some (o.rows, o.table)
    (o.answered = false ∧ (∃ err, o.result = .error err) ∧
        (o.rows = [] ∧ o.table = table ∨ executed)) ∨
      (o.answered = true ∧ executed ∧
        o.result = if o.rows = [] then .error (.orm .optimisticLock) else .ok o.rows.length) := by
  intro o executed
  cases prepared : u.prepare {} now with
  | error err =>
    have failed : o = { result := .error err, table } := by
      simp [o, exec, Statement.exec, prepared]
    rw [failed]
    exact .inl ⟨rfl, ⟨err, rfl⟩, .inl ⟨rfl, rfl⟩⟩
  | ok u' =>
    obtain ⟨new', model, ⟨val', byKey', -⟩, -⟩ := byKey.prepare new prepared
    have sends := exec_eq
      ⟨fun _ => answer fault (db.update (u.statement now) table), fun _ => now, {}⟩
      later prepared
    cases ran : (Statement.updater u').run now with
    | error failed =>
      rw [ran] at sends
      have unsent : o = { result := .error (.orm failed.1), table } := by
        simp only [o, exec, sends, if_true]
        rfl
      rw [unsent]
      exact .inl ⟨rfl, ⟨_, rfl⟩, .inl ⟨rfl, rfl⟩⟩
    | ok =>
      have statement : u.statement now = u'.tokens sch.r sch.m := by
        simp [statement, prepared, ran, new'.run_tokens ran]
      rw [ran, statement] at sends
      have answered : o = respond fault (db.update (u'.tokens sch.r sch.m) table)
          (u'.checkLock ((answer fault
            (db.update (u'.tokens sch.r sch.m) table)).mapError .session)) table := by
        simp [o, exec, statement, sends]
      have spec := respond_cases fault (db.update (u'.tokens sch.r sch.m) table) table model
        byKey'.given
      simp only [← answered] at spec
      rcases spec with ⟨refused, failed, left_⟩ | ⟨replied, written, result⟩
      · exact .inl ⟨refused, failed, left_.imp_right fun written => ⟨u', prepared, written⟩⟩
      · exact .inr ⟨replied, ⟨u', prepared, written⟩, result⟩

/-! ## Many clients -/

structure Reading where
  row : Nat
  id : GoAny
  version : Int
  since : Nat

structure Clients (SqlVal : Type) where
  table : List (Row SqlVal)
  log : List Nat := []
  reading : Nat → Option Reading := fun _ => none

inductive Act where
  | read (client row : Nat) (id : GoAny) (version : Int)
  | exec (client : Nat) (u : Updater) (now : Int) (fault : Option Fault)

def Clients.hold (s : Clients SqlVal) (client : Nat) (R : Reading) : Clients SqlVal :=
  { s with reading := Function.update s.reading client (some R) }

def Clients.after (s : Clients SqlVal) (client : Nat) (o : Outcome SqlVal) : Clients SqlVal :=
  ⟨o.table, s.log ++ o.rows, Function.update s.reading client none⟩

def Clients.step (db : Database SqlVal) (middlewares : List Middleware) (s : Clients SqlVal) :
    Act → Option (Clients SqlVal)
  | .read client row id version =>
    some (s.hold client ⟨row, id, version, s.log.length⟩)
  -- only a client that holds a reading updates
  | .exec client u now fault =>
    (s.reading client).map fun _ => s.after client (db.exec middlewares fault now u s.table)

def clients (sch : Schema) (db : Database SqlVal) (middlewares : List Middleware) :
    System (Clients SqlVal) Act where
  init s := sch.Keyed db s.table ∧ s.log = [] ∧ ∀ client, s.reading client = none
  step := Clients.step db middlewares

def Reading.Update (sch : Schema) (R : Reading) (u : Updater) : Prop :=
  u.New sch ∧ ∃ val, u.ByKey sch R.id val ∧ val.version sch.version = some R.version

def Allowed (sch : Schema) (db : Database SqlVal) (s : Clients SqlVal) : Act → Prop
  | .read _ i id version => ∃ row, s.table[i]? = some row ∧
      row sch.key.colName = db.interp.bind id ∧
      row sch.version.colName = db.interp.bind (.int version)
  | .exec client u _ _ => ∀ R ∈ s.reading client, R.Update sch u

def KeyKept (sch : Schema) (s : Clients SqlVal) : Act → Prop
  | .read _ _ _ _ => True
  | .exec client u _ _ => ∀ R ∈ s.reading client, u.KeepsKey sch R.id

def Clients.Holds (sch : Schema) (db : Database SqlVal) (s : Clients SqlVal) (R : Reading) :
    Prop :=
  R.since ≤ s.log.length ∧ ∃ row, s.table[R.row]? = some row ∧
    row sch.key.colName = db.interp.bind R.id ∧
    row sch.version.colName =
      db.interp.bind (.int (R.version + (s.log.drop R.since).count R.row))

structure Clients.Inv (sch : Schema) (db : Database SqlVal) (s : Clients SqlVal) : Prop where
  keyed : sch.Keyed db s.table
  holds : ∀ client, ∀ R ∈ s.reading client, s.Holds sch db R

/-! ### The update of a row that was read -/

variable {s : Clients SqlVal} {R : Reading}

theorem toInt64_le (n : Nat) : toInt64 n ≤ n := by
  have small : (n : Int) % (2 ^ 64 : Nat) ≤ n := by exact_mod_cast Nat.mod_le n (2 ^ 64)
  unfold toInt64
  generalize 2 ^ 64 = m at small
  rw [Int.bmod_def]
  split
  · exact small
  · omega

theorem versionOf_le {v : Int} (read : val.version field = some v) : versionOf val field ≤ v := by
  rw [version] at read
  rw [versionOf]
  cases found : val.field field.goName with
  | none => simp [found] at read
  | some x =>
    rw [found] at read
    cases x with
    | int => exact (Option.some.inj read).le
    | uint n => exact (toInt64_le n).trans (Option.some.inj read).le
    | _ => cases read

structure Clients.Applied (sch : Schema) (db : Database SqlVal) (s : Clients SqlVal) (R : Reading)
    (u : Updater) (o : Outcome SqlVal) : Prop where
  rows : o.rows = [R.row]
  unwritten : R.row ∉ s.log.drop R.since
  raised : ∃ row row', s.table[R.row]? = some row ∧ o.table = s.table.set R.row row' ∧
    row sch.key.colName = db.interp.bind R.id ∧
    row sch.version.colName = db.interp.bind (.int R.version) ∧ sch.Raised db u R.id row row'

variable {o : Outcome SqlVal}

theorem Clients.Holds.update (keyed : sch.Keyed db s.table) (holds : s.Holds sch db R)
    (byKey : u.ByKey sch R.id val) (le : versionOf val sch.version ≤ R.version)
    (executed : db.update (u.tokens sch.r sch.m) s.table = some (o.rows, o.table)) :
    (o.rows = [] ∧ o.table = s.table) ∨ s.Applied sch db R u o := by
  obtain ⟨-, row, here, key, version⟩ := holds
  rcases byKey.update_row executed keyed here key with unchanged | ⟨rows, guarded, row', set,
    raised⟩
  · exact .inl unchanged
  -- the version sent is at most the one read, and the one in the row at least
  have same := guarded.2.2
  rw [version, db.int_eq] at same
  have zero : (s.log.drop R.since).count R.row = 0 := by omega
  refine .inr ⟨rows, count_eq_zero.mp zero, row, row', here, set, key, ?_, raised⟩
  simpa [zero] using version

theorem Clients.Inv.exec_cases (inv : s.Inv sch db) (holds : s.Holds sch db R)
    (later : middlewares.any buildsFirst = false) (update : R.Update sch u)
    (fault : Option Fault) (now : Int) : let o := db.exec middlewares fault now u s.table
    ((o.rows = [] ∧ o.table = s.table) ∨
        ∃ u', s.Applied sch db R u' o ∧ (u.KeepsKey sch R.id → u'.KeepsKey sch R.id)) ∧
      (o.answered = false ∧ (∃ err, o.result = .error err) ∨ o.answered = true ∧ o.result =
          if o.rows = [] then .error (.orm .optimisticLock) else .ok o.rows.length) := by
  intro o
  obtain ⟨new, val, byKey, read⟩ := update
  have written (u' : Updater) (prepared : u.prepare {} now = .ok u')
      (executed : db.update (u'.tokens sch.r sch.m) s.table = some (o.rows, o.table)) :
      (o.rows = [] ∧ o.table = s.table) ∨
        ∃ u', s.Applied sch db R u' o ∧ (u.KeepsKey sch R.id → u'.KeepsKey sch R.id) := by
    obtain ⟨-, -, ⟨val', byKey', version⟩, keeps⟩ := byKey.prepare new prepared
    have le : versionOf val' sch.version ≤ R.version := version ▸ versionOf_le read
    rcases holds.update inv.keyed byKey' le executed with unchanged | applied
    · exact .inl unchanged
    · exact .inr ⟨u', applied, keeps⟩
  rcases Database.exec_cases fault later byKey new with
    ⟨refused, failed, done⟩ | ⟨answered, ⟨u', prepared, executed⟩, result⟩
  · rcases done with unchanged | ⟨u', prepared, executed⟩
    · exact ⟨.inl unchanged, .inl ⟨refused, failed⟩⟩
    · exact ⟨written u' prepared executed, .inl ⟨refused, failed⟩⟩
  · exact ⟨written u' prepared executed, .inr ⟨answered, result⟩⟩

/-! ### Runs -/

theorem Schema.Keyed.set {row row' : Row SqlVal} {i : Nat} (keyed : sch.Keyed db table)
    (here : table[i]? = some row) (same : row' sch.key.colName = row sch.key.colName) :
    sch.Keyed db (table.set i row') := by
  -- every row of the new table has the key of the row at its place before
  have before (j : Nat) (new : Row SqlVal) (there : (table.set i row')[j]? = some new) :
      ∃ old, table[j]? = some old ∧ new sch.key.colName = old sch.key.colName := by
    rw [List.getElem?_set] at there
    split at there
    case isTrue at_ =>
      split at there
      · cases there
        exact ⟨row, at_ ▸ here, same⟩
      · cases there
    case isFalse => exact ⟨new, there, rfl⟩
  intro j k new new' there there' equal
  obtain ⟨old, was, key⟩ := before j new there
  obtain ⟨old', was', key'⟩ := before k new' there'
  rw [key, key'] at equal
  exact keyed j k old old' was was' equal

theorem Clients.Holds.applied {R' : Reading} (holds : s.Holds sch db R')
    (applied : s.Applied sch db R u o) (keeps : u.KeepsKey sch R.id) (client : Nat) :
    (s.after client o).Holds sch db R' := by
  obtain ⟨since, row', there, key', version'⟩ := holds
  obtain ⟨row, new, here, set, key, -, raised⟩ := applied.raised
  have counted : (s.log ++ o.rows).drop R'.since = s.log.drop R'.since ++ [R.row] := by
    rw [applied.rows, drop_append_of_le_length since]
  refine ⟨by simp [Clients.after]; omega, ?_⟩
  simp only [Clients.after, counted, set]
  by_cases same : R'.row = R.row
  · rw [same] at there version' ⊢
    cases here.symm.trans there
    have length := (List.getElem?_eq_some_iff.mp here).1
    refine ⟨new, List.getElem?_set_self length, (raised.key keeps key).trans key', ?_⟩
    rw [raised.version, version', db.succ_int, count_append, count_singleton_self]
    push_cast
    rw [add_assoc]
  · refine ⟨row', (List.getElem?_set_ne (Ne.symm same)).trans there, key', ?_⟩
    rw [version', count_append, count_singleton]
    simp [Ne.symm same]

theorem Clients.Inv.hold {row : Row SqlVal} (inv : s.Inv sch db) (client : Nat)
    (here : s.table[R.row]? = some row) (key : row sch.key.colName = db.interp.bind R.id)
    (version : row sch.version.colName = db.interp.bind (.int R.version))
    (since : R.since = s.log.length) : (s.hold client R).Inv sch db := by
  refine ⟨inv.keyed, fun client' R' held => ?_⟩
  simp only [Clients.hold] at held
  by_cases same : client' = client
  · rw [same, update_self] at held
    cases held
    exact ⟨since.le, row, here, key, by simp [Clients.hold, version, since]⟩
  · rw [update_of_ne same] at held
    exact inv.holds client' R' held

theorem Clients.Inv.after (inv : s.Inv sch db) (client : Nat) (R : Reading)
    (done : (o.rows = [] ∧ o.table = s.table) ∨
      ∃ u, s.Applied sch db R u o ∧ u.KeepsKey sch R.id) : (s.after client o).Inv sch db := by
  have others (client' : Nat) (R' : Reading) (held : R' ∈ (s.after client o).reading client') :
      s.Holds sch db R' := by
    simp only [Clients.after] at held
    by_cases same : client' = client
    · rw [same, update_self] at held
      cases held
    · rw [update_of_ne same] at held
      exact inv.holds client' R' held
  rcases done with ⟨rows, same⟩ | ⟨u, applied, keeps⟩
  · have unchanged : (s.after client o).table = s.table ∧ (s.after client o).log = s.log :=
      ⟨same, by simp [Clients.after, rows]⟩
    refine ⟨unchanged.1 ▸ inv.keyed, fun client' R' held => ?_⟩
    rw [Clients.Holds, unchanged.1, unchanged.2]
    exact others client' R' held
  · obtain ⟨row, new, here, set, key, -, raised⟩ := applied.raised
    refine ⟨?_, fun client' R' held => (others client' R' held).applied applied keeps client⟩
    rw [Clients.after, set]
    exact inv.keyed.set here (raised.key keeps key)

theorem Clients.Inv.step {s' : Clients SqlVal} {l : Act} (inv : s.Inv sch db)
    (later : middlewares.any buildsFirst = false) (allowed : Allowed sch db s l)
    (kept : KeyKept sch s l) (ran : s.step db middlewares l = some s') : s'.Inv sch db := by
  cases l with
  | read client =>
    cases ran
    obtain ⟨row, here, key, found⟩ := allowed
    exact inv.hold client here key found rfl
  | exec client u now fault =>
    obtain ⟨R, held, rfl⟩ := Option.map_eq_some_iff.mp ran
    obtain ⟨done, -⟩ := inv.exec_cases (inv.holds client R held) later (allowed R held) fault now
    rcases done with unchanged | ⟨u', applied, keeps⟩
    · exact inv.after client R (.inl unchanged)
    · exact inv.after client R (.inr ⟨u', applied, keeps (kept R held)⟩)

theorem clients_inv (later : middlewares.any buildsFirst = false)
    (reachable : (clients sch db middlewares).Reachable
      (fun s l => Allowed sch db s l ∧ KeyKept sch s l) s) : s.Inv sch db := by
  refine System.Reachable.induct (fun s start => ?_) (fun s l s' inv meets ran => ?_) reachable
  · exact ⟨start.1, fun client R held => by rw [start.2.2 client] at held; cases held⟩
  · exact inv.step later meets.1 meets.2 ran

/-- In any interleaving of clients that keep the primary key: an `Exec` that returns no error
has written one row, the one that was read, at the version that was read, has raised it by
one, and no write to this row lies between; every other `Exec` that the database answered
returns `ErrOptimisticLock` and changes nothing. -/
theorem exec_no_lost_update {o : Outcome SqlVal} {client : Nat}
    (later : middlewares.any Middleware.buildsFirst = false)
    (reachable : (clients sch db middlewares).Reachable
      (fun s l => Allowed sch db s l ∧ KeyKept sch s l) s)
    (held : s.reading client = some R) (update : R.Update sch u)
    (ran : o = db.exec middlewares fault now u s.table) :
    (∀ n, o.result = .ok n → n = 1 ∧ R.row ∉ s.log.drop R.since ∧
      ∃ row row', s.table[R.row]? = some row ∧ o.table = s.table.set R.row row' ∧
        row sch.version.colName = db.interp.bind (.int R.version) ∧
        row' sch.version.colName = db.interp.bind (.int (R.version + 1))) ∧
    (o.answered = true → (∀ n, o.result ≠ .ok n) →
      o.result = .error (.orm .optimisticLock) ∧ o.table = s.table) := by
  have inv := clients_inv later reachable
  obtain ⟨done, returned⟩ := inv.exec_cases (inv.holds client R held) later update fault now
  rw [← ran] at done returned
  rcases returned with ⟨refused, err, failed⟩ | ⟨-, result⟩
  · refine ⟨fun n success => ?_, fun answered => ?_⟩
    · rw [failed] at success
      cases success
    · rw [refused] at answered
      cases answered
  · rcases done with ⟨rows, same⟩ | ⟨u', applied, -⟩
    · rw [if_pos rows] at result
      refine ⟨fun n success => ?_, fun _ _ => ⟨result, same⟩⟩
      rw [result] at success
      cases success
    · rw [if_neg (by simp [applied.rows]), applied.rows] at result
      refine ⟨fun n success => ?_, fun _ failed => absurd result (failed 1)⟩
      rw [result] at success
      cases success
      obtain ⟨row, row', here, set, -, version, raised⟩ := applied.raised
      refine ⟨rfl, applied.unwritten, row, row', here, set, version, ?_⟩
      rw [raised.version, version, db.succ_int]

/-! ## A model with a version -/

def optLockModel : Model where
  tableName := "opt_lock_model"
  fieldMap name :=
    if name = "Id" then some ⟨"id", "Id"⟩
    else if name = "FirstName" then some ⟨"first_name", "FirstName"⟩
    else if name = "Version" then some ⟨"version", "Version"⟩
    else none
  fields := [⟨"id", "Id"⟩, ⟨"first_name", "FirstName"⟩, ⟨"version", "Version"⟩]
  deletedAtField := none
  versionField := some ⟨"version", "Version"⟩

def optLock : Schema where
  r _ := .ok optLockModel
  entity := "OptLockModel"
  m := optLockModel
  version := ⟨"version", "Version"⟩
  key := ⟨"id", "Id"⟩
  registered := rfl
  versioned := rfl
  hasVersion := rfl
  hasKey := rfl
  apart := by decide
  distinct := by
    intro name name' field field' found found' same
    simp only [optLockModel] at found found'
    split_ifs at found found' <;> cases found <;> cases found' <;> first
      | exact absurd same (by decide)
      | simp_all
  updated field stamped := by cases stamped

def stored : Database GoAny where
  interp := cells
  succ
    | .int v => .int (v + 1)
    | v => v
  sequential := true
  col_eq _ _ := rfl
  int_eq v w := by by_cases same : v = w <;> simp [cells, Tri.ofBool, same]
  succ_int _ := rfl

def optLockRow (id version : Int) : Row GoAny := fun name =>
  if name = "id" then .int id else if name = "version" then .int version else .str "Jay"

def optLockUpdate (id version : Int) (assigns : List Assignable) : Updater where
  builder := { r := optLock.r, quoter := Dialect.mysql.quoter }
  entity := "OptLockModel"
  assigns
  val := some
    { field := fun name =>
        if name = "Id" then some (.int id)
        else if name = "FirstName" then some (.str "Jay")
        else if name = "Version" then some (.int version)
        else none }
  where_ := [idIs id]

def optLockStart : Clients GoAny := { table := [optLockRow 1 3, optLockRow 7 2] }

theorem optLockStart_init (middlewares : List Middleware) :
    (clients optLock stored middlewares).init optLockStart := by
  refine ⟨fun i j row row' here there same => ?_, rfl, fun _ => rfl⟩
  match i, j with
  | 0, 0 => rfl
  | 1, 1 => rfl
  | 0, 1 => cases here; cases there; exact absurd same (by decide)
  | 1, 0 => cases here; cases there; exact absurd same (by decide)
  | i + 2, _ => cases here
  | 0, j + 2 => cases there
  | 1, j + 2 => cases there

theorem optLockUpdate_update {id version : Int} {assigns : List Assignable} (row since : Nat)
    (implicit : ∀ a ∈ assigns, a.isOf "Version" = false) :
    (Reading.mk row (.int id) version since).Update optLock (optLockUpdate id version assigns) :=
  ⟨⟨rfl, rfl, rfl⟩, _, ⟨rfl, rfl, implicit⟩, rfl⟩

section

variable {s₀ : Clients SqlVal}

theorem run_read (run : (clients sch db middlewares).Run (Allowed sch db) s₀ s)
    (client i : Nat) (id : GoAny) (version : Int)
    (found : ∃ row, s.table[i]? = some row ∧ row sch.key.colName = db.interp.bind id ∧
      row sch.version.colName = db.interp.bind (.int version)) :
    (clients sch db middlewares).Run (Allowed sch db) s₀
      (s.hold client ⟨i, id, version, s.log.length⟩) :=
  run.tail (l := .read client i id version) found rfl

theorem run_exec (run : (clients sch db middlewares).Run (Allowed sch db) s₀ s)
    (client : Nat) (u : Updater) (now : Int) (fault : Option Fault)
    (held : s.reading client = some R) (update : R.Update sch u) :
    (clients sch db middlewares).Run (Allowed sch db) s₀
      (s.after client (db.exec middlewares fault now u s.table)) := by
  refine run.tail (l := .exec client u now fault) (fun R' held' => ?_) ?_
  · cases held.symm.trans held'
    exact update
  · simp [clients, Clients.step, held]

end

def setFirstName (name : String) : List Assignable :=
  [.assignment "FirstName" (.value (.str name))]

/-- A client that reads the row and sets the name. -/
theorem exec_no_lost_update_first_name :
    (stored.exec [.slowQuery true] none 0 (optLockUpdate 1 3 (setFirstName "Tom"))
        optLockStart.table).result = .ok 1 ∧
      ∃ row', (stored.exec [.slowQuery true] none 0 (optLockUpdate 1 3 (setFirstName "Tom"))
        optLockStart.table).table = optLockStart.table.set 0 row' ∧ row' "version" = .int 4 := by
  let R : Reading := ⟨0, .int 1, 3, 0⟩
  have reachable : (clients optLock stored [.slowQuery true]).Reachable
      (fun s l => Allowed optLock stored s l ∧ KeyKept optLock s l) (optLockStart.hold 0 R) :=
    ⟨optLockStart, optLockStart_init _, (System.Run.refl _).tail (l := .read 0 0 (.int 1) 3)
      ⟨⟨_, rfl, rfl, rfl⟩, trivial⟩ rfl⟩
  have held : (optLockStart.hold 0 R).reading 0 = some R := rfl
  have result : (stored.exec [.slowQuery true] none 0 (optLockUpdate 1 3 (setFirstName "Tom"))
      optLockStart.table).result = .ok 1 := by decide +kernel
  rcases (exec_no_lost_update rfl reachable held (optLockUpdate_update 0 0 (by decide)) rfl).1 1
    result with ⟨-, -, -, row', -, set, -, version⟩
  exact ⟨result, row', set, version⟩

def setId (id : Int) : List Assignable := [.assignment "Id" (.value (.int id))]

def rekeyed : Clients GoAny :=
  let s := (optLockStart.hold 0 ⟨0, .int 1, 3, 0⟩).hold 1 ⟨0, .int 1, 3, 0⟩
  let s := s.after 1 (stored.exec [] none 0 (optLockUpdate 1 3 (setId 2)) s.table)
  let s := s.hold 2 ⟨1, .int 7, 2, s.log.length⟩
  s.after 2 (stored.exec [] none 0 (optLockUpdate 7 2 (setId 1)) s.table)

theorem rekeyed_reachable :
    (clients optLock stored []).Reachable (Allowed optLock stored) rekeyed := by
  refine ⟨optLockStart, optLockStart_init _, ?_⟩
  have start : (clients optLock stored []).Run (Allowed optLock stored) optLockStart
      optLockStart := .refl _
  have one := run_read start 0 0 (.int 1) 3 ⟨_, rfl, rfl, rfl⟩
  have both := run_read one 1 0 (.int 1) 3 ⟨_, rfl, rfl, rfl⟩
  have moved := run_exec both 1 (optLockUpdate 1 3 (setId 2)) 0 none rfl
    (optLockUpdate_update 0 0 (by decide))
  have third := run_read moved 2 1 (.int 7) 2 ⟨_, rfl, rfl, rfl⟩
  exact run_exec third 2 (optLockUpdate 7 2 (setId 1)) 0 none rfl
    (optLockUpdate_update 1 _ (by decide))

/-- Where updates may set the primary key, an `Exec` can write a row that was written since
its client has read the row with this key. -/
theorem exec_after_rekeyed :
    (clients optLock stored []).Reachable (Allowed optLock stored) rekeyed ∧
      rekeyed.reading 0 = some ⟨0, .int 1, 3, 0⟩ ∧
      (Reading.mk 0 (.int 1) 3 0).Update optLock (optLockUpdate 1 3 (setFirstName "Tom")) ∧
      (stored.exec [] none 0 (optLockUpdate 1 3 (setFirstName "Tom")) rekeyed.table).result =
        .ok 1 ∧
      (stored.exec [] none 0 (optLockUpdate 1 3 (setFirstName "Tom")) rekeyed.table).rows = [1] ∧
      1 ∈ rekeyed.log.drop 0 :=
  ⟨rekeyed_reachable, rfl, optLockUpdate_update 0 0 (by decide), by decide +kernel,
    by decide +kernel, by decide +kernel⟩

end Soil.Orm
