import Soil.Orm.BuildSpec
import Soil.Orm.WhereClause

/-!
# How a database executes an UPDATE

A database gives a meaning to values, conditions and expressions (`Interp`) and to `+1`.
It executes an `UPDATE` at once: the rows that satisfy the `WHERE` clause get the
assignments of the `SET` clause, and their number is the answer.
-/

namespace Soil.Orm

open List Option Updater

open Sql

abbrev Row (SqlVal : Type) := String → SqlVal

structure Database (SqlVal : Type) where
  interp : Interp GoAny (Row SqlVal) SqlVal
  succ : SqlVal → SqlVal
  sequential : Bool
  col_eq : ∀ name row, interp.col none name row = row name
  int_eq : ∀ v w : Int,
    interp.cmp .eq (interp.bind (.int v)) (interp.bind (.int w)) = .true ↔ v = w
  succ_int : ∀ v : Int, succ (interp.bind (.int v)) = interp.bind (.int (v + 1))

/-! ## Statements -/

inductive Rhs where
  | succ (column : String)
  | expr (e : Expr GoAny)

def parseAssign : List Tok → Option (String × Rhs)
  | .ident name :: .eqSign :: rest =>
    match rest with
    | [.ident other, .kw .plusOne] => some (name, .succ other)
    | rest => (parse rest).map fun e => (name, .expr e)
  | _ => none

def setClause (ts : List Tok) : List (List Tok) :=
  (((ts.dropWhile (· ≠ .kw .set)).drop 1).takeWhile
    fun t => t ≠ .kw .where_ ∧ t ≠ .kw .semicolon).splitOn (.kw .comma)

namespace Database

variable {SqlVal : Type} (db : Database SqlVal)

def rhs (row : Row SqlVal) : Rhs → SqlVal
  | .succ name => db.succ (row name)
  | .expr e => e.eval db.interp row

def assignOne (row current : Row SqlVal) (a : String × Rhs) : Row SqlVal :=
  Function.update current a.1 (db.rhs (if db.sequential then current else row) a.2)

def assign (row : Row SqlVal) (assigns : List (String × Rhs)) : Row SqlVal :=
  assigns.foldl (db.assignOne row) row

def condition (ts : List Tok) : Option (Row SqlVal → Bool) :=
  match whereClause ts with
  | none => some fun _ => true
  | some clause => (parse clause).map fun e row => decide (e.Holds db.interp row)

def hits (hit : Row SqlVal → Bool) (table : List (Row SqlVal)) : List Nat :=
  (List.range table.length).filter fun i => table[i]?.any hit

def update (ts : List Tok) (table : List (Row SqlVal)) : Option (List Nat × List (Row SqlVal)) := do
  let assigns ← (setClause ts).mapM parseAssign
  let hit ← db.condition ts
  return (hits hit table, table.map fun row => if hit row then db.assign row assigns else row)

variable {db} {row : Row SqlVal} {assigns : List (String × Rhs)} {name : String}

def Keeps (db : Database SqlVal) (name : String) (row : Row SqlVal) (a : String × Rhs) : Prop :=
  a.1 = name → ∃ v, a.2 = .expr (.lit v) ∧ db.interp.bind v = row name

theorem assign_of_keeps (keeps : ∀ a ∈ assigns, Keeps db name row a) :
    db.assign row assigns name = row name := by
  suffices fold : ∀ current : Row SqlVal, current name = row name →
      assigns.foldl (db.assignOne row) current name = row name from
    fold row rfl
  induction assigns with
  | nil => exact fun current same => same
  | cons a rest ih =>
    intro current same
    refine ih (fun a inside => keeps a (mem_cons_of_mem _ inside)) _ ?_
    by_cases here : a.1 = name
    · obtain ⟨v, literal, bound⟩ := keeps a (mem_cons_self ..) here
      rw [assignOne, ← here, Function.update_self, literal, rhs, Expr.eval, here, bound]
    · rw [assignOne, Function.update_of_ne (Ne.symm here), same]

theorem assign_succ (others : ∀ a ∈ assigns, a.1 ≠ name) :
    db.assign row (assigns ++ [(name, .succ name)]) name = db.succ (row name) := by
  have before : ∀ a ∈ assigns, Keeps db name row a := fun a inside here =>
    absurd here (others a inside)
  have current := assign_of_keeps before
  unfold assign at current ⊢
  rw [foldl_append, foldl_cons, foldl_nil, assignOne, Function.update_self, rhs]
  split
  · rw [current]
  · rfl

variable {hit : Row SqlVal → Bool} {table : List (Row SqlVal)} {i : Nat}

theorem mem_hits : i ∈ hits hit table ↔ ∃ row, table[i]? = some row ∧ hit row = true := by
  simp only [hits, mem_filter, mem_range, Option.any_eq_true]
  constructor
  · intro found
    exact found.2
  · rintro ⟨row, there, holds⟩
    exact ⟨(List.getElem?_eq_some_iff.mp there).1, row, there, holds⟩

variable {raise : Row SqlVal → Row SqlVal}

theorem map_of_no_hits (none_ : hits hit table = []) :
    table.map (fun row => if hit row then raise row else row) = table := by
  have misses : ∀ row ∈ table, hit row = false := by
    intro row inside
    obtain ⟨i, here⟩ := mem_iff_getElem?.mp inside
    refine Bool.eq_false_iff.mpr fun holds => ?_
    have inside : i ∈ hits hit table := mem_hits.mpr ⟨row, here, holds⟩
    simp [none_] at inside
  calc table.map (fun row => if hit row then raise row else row)
    _ = table.map id := map_congr_left fun row inside => by simp [misses row inside]
    _ = table := map_id table

theorem map_of_hits (found : hits hit table = [i]) (here : table[i]? = some row) :
    table.map (fun row => if hit row then raise row else row) = table.set i (raise row) := by
  have only (j : Nat) (row' : Row SqlVal) (there : table[j]? = some row') :
      hit row' = true ↔ j = i := by
    have place : j ∈ hits hit table ↔ j = i := by rw [found, mem_singleton]
    rw [← place, mem_hits]
    simp [there]
  apply ext_getElem?
  intro j
  rw [List.getElem?_map, List.getElem?_set]
  by_cases same : i = j
  · obtain rfl := same
    have holds := (only i row here).mpr rfl
    rw [here, map_some, if_pos holds, if_pos rfl, if_pos (List.getElem?_eq_some_iff.mp here).1]
  rw [if_neg same]
  cases there : table[j]? with
  | none => rfl
  | some row' =>
    have misses : hit row' = false :=
      Bool.eq_false_iff.mpr fun holds => same ((only j row' there).mp holds).symm
    simp [misses]

theorem hits_of_unique (unique : ∀ j row, table[j]? = some row → hit row = true → j = i) :
    hits hit table = [i] ∨ hits hit table = [] := by
  have nodup : (hits hit table).Nodup := nodup_range.filter _
  have all : ∀ j ∈ hits hit table, j = i := by
    intro j inside
    obtain ⟨row, there, holds⟩ := mem_hits.mp inside
    exact unique j row there holds
  cases found : hits hit table with
  | nil => exact .inr rfl
  | cons j rest =>
    rw [found] at nodup all
    obtain rfl := all j (by simp)
    have empty : rest = [] := eq_nil_iff_forall_not_mem.mpr fun k inside =>
      (nodup_cons.mp nodup).1 (all k (by simp [inside]) ▸ inside)
    exact .inl (by rw [empty])

end Database

/-! ## The clauses of an update -/

section

variable {r : Registry} {m : Model}

theorem Updater.calm_assign (u : Updater) (a : Assignable) :
    (u.assignTokens r m a).all Tok.calm = true := by
  cases a with
  | assignment =>
    simp [assignTokens, assignmentTokens, Tok.calm]
  | column => simp [assignTokens, Tok.calm]

theorem Updater.calm_field (u : Updater) (field : Field) :
    (u.fieldTokens r m field).all Tok.calm = true := by
  simp [fieldTokens, Tok.calm]

end

variable {α : Type}

theorem intercalate_cons (sep l : List α) (ls : List (List α)) :
    sep.intercalate (l :: ls) = l ++ ls.flatMap (sep ++ ·) := by
  induction ls generalizing l with
  | nil => simp
  | cons next ls ih =>
    rw [intercalate_cons_cons, ih, flatMap_cons, append_assoc, append_assoc]

theorem sepTokens_eq_intercalate (sep : List Tok) (out : α → List Tok) (xs : List α) :
    sepTokens sep out xs = sep.intercalate (xs.map out) := by
  cases xs with
  | nil => rfl
  | cons => rw [map_cons, intercalate_cons, sepTokens, flatMap_map]

theorem exists_of_mem_mapM {β : Type} {f : α → Option β} {xs : List α} {ys : List β} {y : β}
    (read : xs.mapM f = some ys) (inside : y ∈ ys) : ∃ x ∈ xs, f x = some y := by
  induction xs generalizing ys with
  | nil =>
    cases read
    cases inside
  | cons x xs ih =>
    rw [mapM_cons] at read
    obtain ⟨first, here, rest⟩ := bind_eq_some_iff.mp read
    obtain ⟨others, there, done⟩ := bind_eq_some_iff.mp rest
    cases done
    rcases mem_cons.mp inside with rfl | inside
    · exact ⟨x, by simp, here⟩
    · obtain ⟨x', among, found⟩ := ih there inside
      exact ⟨x', by simp [among], found⟩

variable {rest : List Tok}

theorem setClause_eq {table : String} {ls : List (List Tok)}
    (quiet : ∀ t ∈ [.kw .comma].intercalate ls, t ≠ .kw .where_ ∧ t ≠ .kw .semicolon)
    (single : ∀ l ∈ ls, .kw .comma ∉ l) (nonempty : ls ≠ []) :
    setClause ([.kw .update, .ident table, .kw .set] ++ [.kw .comma].intercalate ls ++
      .kw .where_ :: rest) = ls := by
  have body : ∀ t ∈ [.kw .comma].intercalate ls,
      decide (t ≠ .kw .where_ ∧ t ≠ .kw .semicolon) = true :=
    fun t inside => decide_eq_true (quiet t inside)
  have start : ([.kw .update, .ident table, .kw .set] ++ [.kw .comma].intercalate ls ++
      .kw .where_ :: rest : List Tok).dropWhile (· ≠ .kw .set) =
        .kw .set :: ([.kw .comma].intercalate ls ++ .kw .where_ :: rest) := by
    simp
  rw [setClause, start, drop_one, tail_cons, takeWhile_append_of_pos body]
  simp only [takeWhile_cons, ne_eq, not_true_eq_false, false_and, decide_false,
    Bool.false_eq_true, if_false, append_nil]
  exact splitOn_intercalate _ single nonempty

namespace Updater

variable {r : Registry} {m : Model} {u : Updater} {version : Field}

def parts (u : Updater) (r : Registry) (m : Model) : List (List Tok) :=
  if u.assigns ≠ [] then u.assigns.map (u.assignTokens r m)
  else (setFields m m.fields).map (u.fieldTokens r m)

variable {part : List Tok}

theorem calm_parts (inside : part ∈ u.parts r m) : part.all Tok.calm = true := by
  unfold parts at inside
  split at inside
  · obtain ⟨a, -, rfl⟩ := mem_map.mp inside
    exact u.calm_assign a
  · obtain ⟨field, -, rfl⟩ := mem_map.mp inside
    exact u.calm_field field

theorem setTokens_eq (versioned : m.versionField = some version) (given : u.val.isSome = true)
    (implicit : u.versionColumnExplicitlySet version = false) : u.setTokens r m = .kw .set ::
      [.kw .comma].intercalate (u.parts r m ++ [incrementVersion version]) := by
  have concat (ls : List (List Tok)) :
      [.kw .comma].intercalate (ls ++ [incrementVersion version]) =
        [.kw .comma].intercalate ls ++
          ((if ls.isEmpty then [] else [.kw .comma]) ++ incrementVersion version) := by
    cases ls with
    | nil => simp
    | cons => simp [intercalate_cons]
  unfold setTokens parts
  split
  case isTrue some_ =>
    have increment : u.incrementTokens m = .kw .comma :: incrementVersion version := by
      simp [incrementTokens, versioned, given, implicit]
    have nonempty : (u.assigns.map (u.assignTokens r m)).isEmpty = false := by simpa using some_
    rw [concat, nonempty, increment, sepTokens_eq_intercalate]
    simp
  case isFalse =>
    have increment : fullIncrementTokens m =
        (if (setFields m m.fields).isEmpty then [] else [.kw .comma]) ++
          incrementVersion version := by
      simp [fullIncrementTokens, versioned]
    rw [concat, increment, sepTokens_eq_intercalate, isEmpty_map]
    simp

theorem mem_setTokens {t : Tok}
    (inside : t ∈ [.kw .comma].intercalate (u.parts r m ++ [incrementVersion version])) :
    t = .kw .comma ∨ t = .kw .plusOne ∨ Tok.calm t = true := by
  have flat (ls : List (List Tok)) (inside : t ∈ [.kw .comma].intercalate ls) :
      t = .kw .comma ∨ ∃ l ∈ ls, t ∈ l := by
    cases ls with
    | nil => simp at inside
    | cons l =>
      rw [intercalate_cons, mem_append, mem_flatMap] at inside
      rcases inside with inside | ⟨l', among, inside⟩
      · exact .inr ⟨l, by simp, inside⟩
      · rcases mem_append.mp inside with inside | inside
        · exact .inl (mem_singleton.mp inside)
        · exact .inr ⟨l', by simp [among], inside⟩
  rcases flat _ inside with rfl | ⟨part, among, inside⟩
  · exact .inl rfl
  rcases mem_append.mp among with among | among
  · exact .inr (.inr (all_eq_true.mp (calm_parts among) t inside))
  obtain rfl := mem_singleton.mp among
  simp only [incrementVersion, mem_cons, not_mem_nil, or_false] at inside
  rcases inside with rfl | rfl | rfl | rfl
  · exact .inr (.inr rfl)
  · exact .inr (.inr rfl)
  · exact .inr (.inr rfl)
  · exact .inr (.inl rfl)

def guardSegs (m : Model) (ts : List Tok) (version : Field) (v : Int) : List (List Tok) :=
  m.deletedSegs ++ [ts, [.ident version.colName, .eqSign, .ph (.int v)]]

theorem where_eq {val : Instance} {p : Predicate} (versioned : m.versionField = some version)
    (given : u.val = some val) (where_ : u.where_ = [p]) :
    softDeleteTokens r m u.where_ ++ u.guardTokens m =
      .kw .where_ :: joinAnd (guardSegs m (p.expr.tokens r m) version (versionOf val version)) := by
  have guard : u.guardTokens m = .and ::
      [.ident version.colName, .eqSign, .ph (.int (versionOf val version))] := by
    simp [guardTokens, versioned, given, where_]
  rw [guard, where_, softDeleteTokens, guardSegs, Model.deletedSegs]
  cases m.deletedAtField <;> simp [clauseTokens, predicatesTokens, joinAnd]

section

variable {val : Instance} {p : Predicate} (versioned : m.versionField = some version)
  (given : u.val = some val) (implicit : u.versionColumnExplicitlySet version = false)
  (where_ : u.where_ = [p])

include versioned given implicit where_

theorem tokens_eq : u.tokens r m = [.kw .update, .ident m.tableName, .kw .set] ++
      [.kw .comma].intercalate (u.parts r m ++ [incrementVersion version]) ++
      .kw .where_ :: (joinAnd (guardSegs m (p.expr.tokens r m) version (versionOf val version)) ++
        [.kw .semicolon]) := by
  have set := setTokens_eq (r := r) versioned (by rw [given]; rfl) implicit
  have where_ := where_eq (r := r) versioned given where_
  rw [tokens, append_assoc _ _ (u.guardTokens m), where_, set]
  simp

theorem setClause_tokens :
    setClause (u.tokens r m) = u.parts r m ++ [incrementVersion version] := by
  rw [tokens_eq versioned given implicit where_]
  refine setClause_eq (fun t inside => ?_) (fun part among inside => ?_) (by simp)
  · rcases mem_setTokens inside with rfl | rfl | quiet
    · simp
    · simp
    · constructor <;> intro same <;> rw [same] at quiet <;> cases quiet
  · rcases mem_append.mp among with among | among
    · exact absurd (all_eq_true.mp (calm_parts among) _ inside) (by decide)
    · obtain rfl := mem_singleton.mp among
      simp [incrementVersion] at inside

theorem whereClause_tokens (plain : ∀ k, .kw k ∉ p.expr.tokens r m) : whereClause (u.tokens r m) =
      some (joinAnd (guardSegs m (p.expr.tokens r m) version (versionOf val version))) := by
  have absent : .kw .where_ ∉ [.kw .update, .ident m.tableName, .kw .set] ++
      [.kw .comma].intercalate (u.parts r m ++ [incrementVersion version]) := by
    intro inside
    rcases mem_append.mp inside with inside | inside
    · simp at inside
    · rcases mem_setTokens inside with same | same | quiet
      · cases same
      · cases same
      · cases quiet
  have segs : ∀ seg ∈ guardSegs m (p.expr.tokens r m) version (versionOf val version),
      ∀ k, .kw k ∉ seg := by
    intro seg among k
    rcases mem_append.mp among with among | among
    · unfold Model.deletedSegs at among
      split at among
      · cases among
      · obtain rfl := mem_singleton.mp among
        simp
    · rcases mem_cons.mp among with rfl | among
      · exact plain k
      · obtain rfl := mem_singleton.mp among
        simp
  rw [tokens_eq versioned given implicit where_, whereClause, dropWhile_absent absent]
  simp [takeWhile_keyword (joinAnd_plain segs)]

end

/-! ## The rows of a guarded update -/

variable {a : String × Rhs}

theorem parseAssign_column {name : String}
    (read : parseAssign ((col name).tokens r m ++ .eqSign :: rest) = some a) :
    ∃ field, m.fieldMap name = some field ∧ a.1 = field.colName ∧
      ∀ v, rest = [.ph v] → a.2 = .expr (.lit v) := by
  cases found : m.fieldMap name with
  | none =>
    have empty : (col name).tokens r m = [] := by
      simp [Column.tokens, resolveColumn, col, found]
    rw [empty] at read
    cases read
  | some field =>
    have tokens : (col name).tokens r m = [.ident field.colName] := by
      simp [Column.tokens, resolveColumn, col, found, aliasTokens]
    rw [tokens] at read
    refine ⟨field, rfl, ?_, fun v literal => ?_⟩
    · simp only [singleton_append, parseAssign] at read
      split at read
      · cases read
        rfl
      · obtain ⟨-, -, rfl⟩ := map_eq_some_iff.mp read
        rfl
    · have parsed : parse ([.ph v] : List Tok) = some (.lit v) :=
        readsPrimary_ph.readsNot.readsAnd.readsOr.parse
      rw [literal] at read
      cases read
      rfl

theorem parseAssign_part (inside : part ∈ u.parts r m) (read : parseAssign part = some a) :
    ∃ name field, m.fieldMap name = some field ∧ a.1 = field.colName ∧
      ((∃ x ∈ u.assigns, x.isOf name = true) ∨
        u.assigns = [] ∧ m.versionField.map Field.goName ≠ some name ∧
          a.2 = .expr (.lit (valueOf u.val name))) := by
  unfold parts at inside
  split at inside
  · obtain ⟨x, among, rfl⟩ := mem_map.mp inside
    cases x with obtain ⟨field, found, target, -⟩ := parseAssign_column read
    | assignment name =>
      exact ⟨name, field, found, target, .inl ⟨_, among, by simp [Assignable.isOf]⟩⟩
    | column c =>
      exact ⟨c.name, field, found, target, .inl ⟨_, among, by simp [Assignable.isOf]⟩⟩
  · obtain ⟨field, among, rfl⟩ := mem_map.mp inside
    obtain ⟨field', found, target, literal⟩ := parseAssign_column read
    refine ⟨field.goName, field', found, target, .inr ⟨by simp_all, ?_, literal _ rfl⟩⟩
    simpa using (mem_filter.mp among).2

end Updater

structure Schema where
  r : Registry
  entity : String
  m : Model
  version : Field
  key : Field
  registered : r entity = .ok m
  versioned : m.versionField = some version
  hasVersion : m.fieldMap version.goName = some version
  hasKey : m.fieldMap key.goName = some key
  apart : key.goName ≠ version.goName
  distinct : ∀ name name' field field', m.fieldMap name = some field →
    m.fieldMap name' = some field' → field.colName = field'.colName → name = name'
  updated : ∀ field ∈ m.updatedAtField,
    field.goName ≠ version.goName ∧ field.goName ≠ key.goName

structure Updater.ByKey (sch : Schema) (id : GoAny) (val : Instance) (u : Updater) : Prop where
  given : u.val = some val
  where_ : u.where_ = [(col sch.key.goName).eq (.plain id)]
  implicit : ∀ a ∈ u.assigns, a.isOf sch.version.goName = false

def Updater.KeepsKey (sch : Schema) (id : GoAny) (u : Updater) : Prop :=
  if u.assigns = [] then valueOf u.val sch.key.goName = id
  else ∀ a ∈ u.assigns, a.isOf sch.key.goName = false

section

variable {SqlVal : Type} {db : Database SqlVal} {sch : Schema} {id : GoAny} {val : Instance}
  {u : Updater}

def Schema.Guarded (sch : Schema) (db : Database SqlVal) (id : GoAny) (v : Int)
    (row : Row SqlVal) : Prop :=
  sch.m.Live db.interp row ∧
    db.interp.cmp .eq (row sch.key.colName) (db.interp.bind id) = .true ∧
    db.interp.cmp .eq (row sch.version.colName) (db.interp.bind (.int v)) = .true

theorem Schema.keyTokens (sch : Schema) (id : GoAny) :
    ((col sch.key.goName).eq (.plain id)).expr.tokens sch.r sch.m =
      [.ident sch.key.colName, .cmp .eq, .ph id] := by
  have column : (col sch.key.goName).tokens sch.r sch.m = [.ident sch.key.colName] := by
    simp [Column.tokens, resolveColumn, col, sch.hasKey, aliasTokens]
  change (col sch.key.goName).tokens sch.r sch.m ++ [.cmp .eq] ++ [.ph id] = _
  rw [column]
  rfl

theorem Schema.guarded_means (sch : Schema) (db : Database SqlVal) (id : GoAny) (v : Int) (row :
    Row SqlVal) : Means db.interp row
      (guardSegs sch.m [.ident sch.key.colName, .cmp .eq, .ph id] sch.version v)
      (sch.Guarded db id v row) := by
  have key : Means db.interp row [[.ident sch.key.colName, .cmp .eq, .ph id]]
      (db.interp.cmp .eq (row sch.key.colName) (db.interp.bind id) = .true) := by
    refine means_not (readsPrimary_ident.cmp readsPrimary_ph) ?_
    simp [Expr.Holds, Expr.eval, db.interp.truth_ofTri, db.col_eq]
  have version : Means db.interp row [[.ident sch.version.colName, .eqSign, .ph (.int v)]]
      (db.interp.cmp .eq (row sch.version.colName) (db.interp.bind (.int v)) = .true) := by
    refine means_not (readsPrimary_ident.eqSign readsPrimary_ph) ?_
    simp [Expr.Holds, Expr.eval, db.interp.truth_ofTri, db.col_eq]
  exact sch.m.deletedSegs_means.append (key.append version)

theorem Updater.ByKey.explicitlySet (byKey : u.ByKey sch id val) :
    u.versionColumnExplicitlySet sch.version = false :=
  any_eq_false.mpr fun a inside explicit =>
    Bool.false_ne_true ((byKey.implicit a inside).symm.trans explicit)

theorem Updater.ByKey.condition (byKey : u.ByKey sch id val) {hit : Row SqlVal → Bool}
    (read : db.condition (u.tokens sch.r sch.m) = some hit) (row : Row SqlVal) :
    hit row = true ↔ sch.Guarded db id (versionOf val sch.version) row := by
  have clause := whereClause_tokens (r := sch.r) sch.versioned byKey.given
    byKey.explicitlySet byKey.where_ (by simp [sch.keyTokens id])
  rw [sch.keyTokens id] at clause
  rcases (sch.guarded_means db id (versionOf val sch.version) row).readsAnd
    (by simp [guardSegs]) with ⟨E, reads, holds⟩
  simp only [Database.condition, clause, reads.readsOr.parse, map_some, some.injEq] at read
  rw [← read, decide_eq_true_iff, holds]

theorem Updater.ByKey.assigns (byKey : u.ByKey sch id val) {assigns : List (String × Rhs)}
    (read : (setClause (u.tokens sch.r sch.m)).mapM parseAssign = some assigns) :
    ∃ others, assigns = others ++ [(sch.version.colName, .succ sch.version.colName)] ∧
      ∀ a ∈ others, a.1 ≠ sch.version.colName ∧
        (u.KeepsKey sch id → a.1 = sch.key.colName → a.2 = .expr (.lit id)) := by
  rw [setClause_tokens sch.versioned byKey.given byKey.explicitlySet byKey.where_,
    mapM_append] at read
  obtain ⟨others, parts, last⟩ := bind_eq_some_iff.mp read
  cases last
  refine ⟨others, rfl, fun a inside => ?_⟩
  obtain ⟨part, among, parsed⟩ := exists_of_mem_mapM parts inside
  obtain ⟨name, field, found, target, kind⟩ := parseAssign_part among parsed
  constructor
  · intro same
    obtain rfl := sch.distinct _ _ _ _ found sch.hasVersion (target.symm.trans same)
    rcases kind with ⟨x, among, isOf⟩ | ⟨-, other, -⟩
    · exact Bool.false_ne_true ((byKey.implicit x among).symm.trans isOf)
    · exact other (by rw [sch.versioned]; rfl)
  · intro keeps same
    obtain rfl := sch.distinct _ _ _ _ found sch.hasKey (target.symm.trans same)
    unfold Updater.KeepsKey at keeps
    rcases kind with ⟨x, among, isOf⟩ | ⟨none_, -, literal⟩
    · rw [if_neg (ne_nil_of_mem among)] at keeps
      exact absurd ((keeps x among).symm.trans isOf) Bool.false_ne_true
    · rw [if_pos none_] at keeps
      rw [literal, keeps]

structure Schema.Raised (sch : Schema) (db : Database SqlVal) (u : Updater) (id : GoAny)
    (row row' : Row SqlVal) : Prop where
  version : row' sch.version.colName = db.succ (row sch.version.colName)
  key : u.KeepsKey sch id → row sch.key.colName = db.interp.bind id →
    row' sch.key.colName = row sch.key.colName

variable {rows : List Nat}

theorem Updater.ByKey.update (byKey : u.ByKey sch id val) {table table' : List (Row SqlVal)}
    (ran : db.update (u.tokens sch.r sch.m) table = some (rows, table')) :
    ∃ (hit : Row SqlVal → Bool) (raise : Row SqlVal → Row SqlVal), rows = Database.hits hit table ∧
      table' = table.map (fun row => if hit row then raise row else row) ∧
      (∀ row, hit row = true ↔ sch.Guarded db id (versionOf val sch.version) row) ∧
      ∀ row, sch.Raised db u id row (raise row) := by
  obtain ⟨assigns, set, rest⟩ := bind_eq_some_iff.mp ran
  obtain ⟨hit, where_, done⟩ := bind_eq_some_iff.mp rest
  cases done
  obtain ⟨others, rfl, apart⟩ := byKey.assigns set
  refine ⟨hit, fun row => db.assign row _, rfl, rfl, byKey.condition where_, fun row => ⟨?_, ?_⟩⟩
  · exact Database.assign_succ fun a inside => (apart a inside).1
  intro keeps bound
  refine Database.assign_of_keeps fun a inside same => ?_
  rcases mem_append.mp inside with inside | inside
  · exact ⟨id, (apart a inside).2 keeps same, bound.symm⟩
  · obtain rfl := mem_singleton.mp inside
    exact absurd (sch.distinct _ _ _ _ sch.hasVersion sch.hasKey same) sch.apart.symm

def Schema.Keyed (sch : Schema) (db : Database SqlVal) (table : List (Row SqlVal)) : Prop :=
  ∀ (i j : Nat) (row row' : Row SqlVal), table[i]? = some row → table[j]? = some row' →
    db.interp.cmp .eq (row sch.key.colName) (row' sch.key.colName) = .true → i = j

theorem Updater.ByKey.update_row (byKey : u.ByKey sch id val) {table table' : List (Row SqlVal)}
    (ran : db.update (u.tokens sch.r sch.m) table = some (rows, table'))
    (keyed : sch.Keyed db table) {i : Nat} {row : Row SqlVal} (here : table[i]? = some row)
    (bound : row sch.key.colName = db.interp.bind id) : (rows = [] ∧ table' = table) ∨
      (rows = [i] ∧ sch.Guarded db id (versionOf val sch.version) row ∧
        ∃ row', table' = table.set i row' ∧ sch.Raised db u id row row') := by
  obtain ⟨hit, raise, rfl, rfl, guarded, raised⟩ := byKey.update ran
  have unique : ∀ j row', table[j]? = some row' → hit row' = true → j = i := by
    intro j row' there holds
    refine keyed j i row' row there here ?_
    rw [bound]
    exact ((guarded row').mp holds).2.1
  rcases Database.hits_of_unique unique with found | none_
  · refine .inr ⟨found, ?_, raise row, ?_, raised row⟩
    · have inside : i ∈ Database.hits hit table := by rw [found]; simp
      obtain ⟨row', there, holds⟩ := Database.mem_hits.mp inside
      cases here.symm.trans there
      exact (guarded row).mp holds
    · exact Database.map_of_hits found here
  · exact .inl ⟨none_, Database.map_of_no_hits none_⟩

end

end Soil.Orm
