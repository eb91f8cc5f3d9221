import Mathlib.Data.List.TakeWhile
import Soil.Orm.Emission
import Soil.Orm.Rendering

/-!
# What the WHERE clause of a built statement means
-/

namespace Soil.Orm

open List Predicate Expression Instance Option

open Sql

variable {b : Builder} {m : Model} {r : Registry}

/-! ## The clause as tokens -/

def whereTokens (segs : List (List Tok)) : List Tok :=
  if segs = [] then [] else .kw .where_ :: joinAnd segs

theorem whereTokens_append {segs : List (List Tok)} {seg : List Tok} : whereTokens (segs ++ [seg]) =
      whereTokens segs ++ (if segs = [] then .kw .where_ else .and) :: seg := by
  by_cases empty : segs = []
  · simp [empty, whereTokens]
  · simp [empty, whereTokens, joinAnd_append empty (cons_ne_nil seg [])]

def Model.deletedSegs (m : Model) : List (List Tok) :=
  match m.deletedAtField with
  | none => []
  | some field => [[.ident field.colName, .isNull]]

inductive UserSegs (r : Registry) (m : Model) : List Predicate → List (List Tok) → Prop
  | empty : UserSegs r m [] []
  | joined {p q : Predicate} {ps : List Predicate} {ts : List Tok} :
      q = ps.foldl Predicate.and p → TopLevel r m q.left q.op q.right ts →
      UserSegs r m (p :: ps) [ts]

theorem Built.foldl {p : Predicate} {ps : List Predicate} (head : Built p)
    (tail : ∀ q ∈ ps, Built q) : Built (ps.foldl Predicate.and p) := by
  induction ps generalizing p with
  | nil => exact head
  | cons q ps ih => exact ih (.and head (tail q (by simp))) fun q mem => tail q (by simp [mem])

def userSegs (r : Registry) (m : Model) (where_ : List Predicate) : List (List Tok) :=
  if where_ ≠ [] then [predicatesTokens r m where_] else []

theorem userSegs_built {where_ : List Predicate} (built : ∀ p ∈ where_, Built p)
    (known : clauseKnown r m where_ = true) : UserSegs r m where_ (userSegs r m where_) := by
  cases where_ with
  | nil => exact .empty
  | cons p ps =>
    have built : Built (ps.foldl Predicate.and p) :=
      (built p (by simp)).foldl fun q mem => built q (by simp [mem])
    exact .joined rfl (built.topLevel known)

theorem softDeleteTokens_eq (where_ : List Predicate) :
    softDeleteTokens r m where_ = whereTokens (m.deletedSegs ++ userSegs r m where_) := by
  unfold softDeleteTokens Model.deletedSegs
  cases m.deletedAtField <;> by_cases empty : where_ = [] <;>
    simp [clauseTokens, userSegs, whereTokens, joinAnd, empty]

def Updater.versionSegs (u : Updater) (m : Model) : List (List Tok) :=
  match m.versionField, u.val with
  | some version, some val =>
    match readVersionFromVal val version with
    | .ok v => [[.ident version.colName, .eqSign, .ph (.int v)]]
    | .error _ => []
  | _, _ => []

variable {u : Updater}

theorem Updater.guardTokens_eq (known : u.guardKnown m = true) :
    softDeleteTokens r m u.where_ ++ u.guardTokens m =
      whereTokens (m.deletedSegs ++ userSegs r m u.where_ ++ u.versionSegs m) := by
  unfold guardKnown at known
  unfold guardTokens versionSegs
  cases versioned : m.versionField with
  | none => simp [softDeleteTokens_eq]
  | some =>
    cases given : u.val with
    | none => simp [softDeleteTokens_eq]
    | some =>
      simp only [versioned, given] at known
      simp only [readVersion_ok known, softDeleteTokens_eq, whereTokens_append]
      cases deleted : m.deletedAtField <;> by_cases empty : u.where_ = [] <;>
        simp [Model.deletedSegs, userSegs, deleted]

/-! ## Statements -/

inductive Stmt where
  | selector (s : Selector)
  | updater (u : Updater)
  | deleter (d : Deleter) (now : Int)

def Stmt.builder : Stmt → Builder
  | .selector s => s.builder
  | .updater u => u.builder
  | .deleter d _ => d.builder

def Stmt.entity : Stmt → String
  | .selector s => s.entity
  | .updater u => u.entity
  | .deleter d _ => d.entity

def Stmt.where_ : Stmt → List Predicate
  | .selector s => s.where_
  | .updater u => u.where_
  | .deleter d _ => d.where_

def Stmt.val : Stmt → Option Instance
  | .updater u => u.val
  | _ => none

def Stmt.build : Stmt → Build
  | .selector s => s.build
  | .updater u => u.build
  | .deleter d now => d.build now

def Stmt.versionSegs (m : Model) : Stmt → List (List Tok)
  | .updater u => u.versionSegs m
  | _ => []

def HasClause (start : List Tok) (segs : List (List Tok)) (b : Builder) : Prop :=
  ∃ pre k post, b.sql = start ++ (pre ++ whereTokens segs ++ .kw k :: post) ∧
    .kw .where_ ∉ pre ∧ k ≠ .where_ ∧ .kw .where_ ∉ post

theorem hasClause_of {start : List Tok} {segs : List (List Tok)} (pre post : List Tok)
    (written : b.sql = start ++ (pre ++ whereTokens segs ++ post)) (head : WhereFree pre)
    (tail : WhereFree post) (starts : StartsKw post) (some_ : post ≠ []) :
    HasClause start segs b := by
  cases post with
  | nil => exact absurd rfl some_
  | cons t post =>
    obtain ⟨other, rest⟩ := whereFree_cons.mp tail
    cases t with
    | kw k => exact ⟨pre, k, post, written, head, fun same => other (congrArg _ same), rest⟩
    | _ => cases starts _ rfl

theorem hasClause_semicolon {start : List Tok} {segs : List (List Tok)} (pre : List Tok)
    (written : b.sql = start ++ (pre ++ whereTokens segs ++ [.kw .semicolon]))
    (head : WhereFree pre) : HasClause start segs b :=
  hasClause_of _ _ written head (by simp) (startsKw_cons _ _) (by simp)

def Stmt.statement : Stmt → Statement
  | .selector s => .selector s
  | .updater u => .updater u
  | .deleter d _ => .deleter d

def Stmt.now : Stmt → Int
  | .deleter _ now => now
  | _ => 0

theorem Stmt.build_eq_run (stmt : Stmt) : stmt.build = stmt.statement.run stmt.now := by
  cases stmt <;> rfl

variable {stmt : Stmt} {users : List (List Tok)}

open Stmt

theorem Stmt.build_wrote (model : stmt.builder.r stmt.entity = .ok m)
    (built : ∀ p ∈ stmt.where_, Built p) (run : stmt.build = .ok b) :
    ∃ users, UserSegs stmt.builder.r m stmt.where_ users ∧
      HasClause stmt.builder.sql (m.deletedSegs ++ users ++ stmt.versionSegs m) b := by
  rw [build_eq_run] at run
  obtain ⟨m', model', known, rfl⟩ := Statement.run_eq_ok _ run
  cases stmt with obtain rfl := Except.ok.inj (model.symm.trans model')
  | selector s =>
    simp only [statement, Statement.known, Selector.known, Bool.and_eq_true] at known
    refine ⟨_, userSegs_built built known.1.1.1.2, ?_⟩
    refine hasClause_of ([.kw .select] ++ columnsTokens s.builder.r m s.columns ++
      [.kw .from_] ++ s.table.tokens s.builder.r m) (s.tailTokens s.builder.r m)
      ?_ (by simp [whereFree_columns, whereFree_table]) s.whereFree_tail s.tail_starts
      (by simp [Selector.tailTokens])
    simp only [versionSegs, append_nil, where_, ← softDeleteTokens_eq]
    rfl
  | updater u =>
    simp only [statement, Statement.known, Updater.known, Bool.and_eq_true] at known
    refine ⟨_, userSegs_built built known.1.2, ?_⟩
    refine hasClause_semicolon ([.kw .update, .ident m.tableName] ++
      u.setTokens u.builder.r m) ?_ (by simp [u.whereFree_set])
    rw [versionSegs, where_, builder, ← Updater.guardTokens_eq known.2]
    simp [statement, Statement.tokens, Updater.tokens, Statement.start, Statement.builder]
  | deleter d now =>
    have table : WhereFree (d.tableTokens m) := whereFree_ite (by simp) (by simp)
    have clause := softDeleteTokens_eq (r := d.builder.r) (m := m) d.where_
    refine ⟨_, userSegs_built built known, ?_⟩
    simp only [versionSegs, append_nil]
    cases deleted : m.deletedAtField with
    | none =>
      refine hasClause_semicolon (.kw .deleteFrom :: d.tableTokens m) ?_ (by simp [table])
      rw [softDeleteTokens, deleted] at clause
      simp [statement, Statement.tokens, Deleter.tokens, Statement.start, Statement.builder,
        builder, where_, deleted, clause]
    | some field =>
      refine hasClause_semicolon (.kw .update :: d.tableTokens m ++
        [.kw .set, .ident field.colName, .eqSign, .ph (.time now)]) ?_ (by simp [table])
      simp [statement, Statement.tokens, Deleter.tokens, Statement.start, Statement.builder,
        builder, where_, deleted, Stmt.now, clause]

/-! ## Finding the clause in the text -/

def whereClause (ts : List Tok) : Option (List Tok) :=
  match ts.dropWhile (· ≠ .kw .where_) with
  | [] => none
  | _ :: rest => some (rest.takeWhile fun t => !isKeyword t)

theorem takeWhile_keyword {ts post : List Tok} {k : Keyword} (plain : ∀ k, .kw k ∉ ts) :
    (ts ++ .kw k :: post).takeWhile (fun t => !isKeyword t) = ts := by
  induction ts with
  | nil => rfl
  | cons t ts ih =>
    have other : isKeyword t = false := by
      cases t with
      | kw k => exact absurd (mem_cons_self ..) (plain k)
      | _ => rfl
    simp [other, ih fun k mem => plain k (mem_cons_of_mem _ mem)]

theorem dropWhile_absent {pre rest : List Tok} (absent : .kw .where_ ∉ pre) :
    (pre ++ rest).dropWhile (· ≠ .kw .where_) = rest.dropWhile (· ≠ .kw .where_) := by
  induction pre with
  | nil => rfl
  | cons t pre ih =>
    simp only [mem_cons, not_or] at absent
    simp only [cons_append, dropWhile_cons, ne_eq, Ne.symm absent.1,
      not_false_eq_true, decide_true, if_true, ih absent.2]

theorem joinAnd_plain {segs : List (List Tok)} (plain : ∀ seg ∈ segs, ∀ k, .kw k ∉ seg)
    (k : Keyword) : .kw k ∉ joinAnd segs := by
  cases segs with
  | nil => simp [joinAnd]
  | cons seg =>
    simp only [joinAnd, mem_append, mem_flatMap, mem_cons, reduceCtorEq,
      false_or, not_or, not_exists, not_and]
    exact ⟨plain seg (by simp) k, fun seg' mem => plain seg' (by simp [mem]) k⟩

theorem HasClause.whereClause {start : List Tok} {segs : List (List Tok)}
    (clause : HasClause start segs b) (plain : ∀ seg ∈ segs, ∀ k, .kw k ∉ seg) :
    Orm.whereClause (b.sql.drop start.length) =
      if segs = [] then none else some (joinAnd segs) := by
  obtain ⟨pre, k, post, sql, absent, other, absent'⟩ := clause
  rw [sql, drop_left, append_assoc, Orm.whereClause, dropWhile_absent absent]
  by_cases empty : segs = []
  · have none : .kw .where_ ∉ (.kw k :: post : List Tok) := by simp [absent', Ne.symm other]
    have drop : (.kw k :: post : List Tok).dropWhile (· ≠ .kw .where_) = [] :=
      dropWhile_eq_nil_iff.mpr fun t mem => by
        simpa using fun same : t = .kw .where_ => none (same ▸ mem)
    simp only [whereTokens, empty, if_true, nil_append, drop]
  · simp [whereTokens, empty, takeWhile_keyword (joinAnd_plain plain)]

/-! ## Meaning -/

section

variable {Row SqlVal : Type} (I : Interp GoAny Row SqlVal) (row : Row)

def Expression.Holds (r : Registry) (m : Model) (e : Expression) : Prop :=
  ∃ E, e.resolve r m = some E ∧ E.Holds I row

def Model.Live (m : Model) : Prop :=
  ∀ field ∈ m.deletedAtField, I.null (I.col none field.colName row) = true

def Instance.version (val : Instance) (field : Field) : Option Int :=
  match val.field field.goName with
  | some (.int i) => some i
  | some (.uint n) => some n
  | _ => none

def Instance.sentVersion (val : Instance) (field : Field) : Option Int :=
  (readVersionFromVal val field).toOption

def Stmt.VersionIs (stmt : Stmt) (m : Model) (read : Instance → Field → Option Int) : Prop :=
  ∀ version ∈ m.versionField, ∀ val ∈ stmt.val, ∀ v ∈ read val version,
    I.cmp .eq (I.col none version.colName row) (I.bind (.int v)) = .true

def Stmt.Selects (stmt : Stmt) (m : Model) : Prop :=
  m.Live I row ∧ (∀ p ∈ stmt.where_, p.expr.Holds I row stmt.builder.r m) ∧
    stmt.VersionIs I row m Instance.version

def Stmt.ClauseHolds (stmt : Stmt) (b : Builder) : Prop :=
  match whereClause (b.sql.drop stmt.builder.sql.length) with
  | none => True
  | some ts => ∃ E, parse ts = some E ∧ E.Holds I row

/-- When the clause is right about the row.  A single disjunction is not put between
parentheses, so the soft-delete filter binds to its left side only and the version guard
to its right side only. -/
def Stmt.ReadsAsConjunction (stmt : Stmt) (m : Model) : Prop :=
  let live := m.Live I row
  let holds := fun e : Expression => e.Holds I row stmt.builder.r m
  let version := stmt.VersionIs I row m Instance.version
  let sent := stmt.VersionIs I row m Instance.sentVersion
  if ∀ p ∈ stmt.where_, p.expr.aliasFree then
    match stmt.where_ with
    | [⟨left, .or, right⟩] =>
      (live ∧ holds left → version) ∧ (holds right ∧ sent → live ∧ version) ∧
        (live ∧ version ∧ holds right → holds left ∨ sent)
    | ps => live ∧ (∀ p ∈ ps, holds p.expr) → (sent ↔ version)
  -- an alias inside a condition is not SQL: no row is selected
  else ¬ stmt.Selects I row m

/-! ### Conditions joined by `AND` -/

def SegsHold (segs : List (List Tok)) : Prop :=
  segs = [] ∨ ∃ E, parse (joinAnd segs) = some E ∧ E.Holds I row

def Means (segs : List (List Tok)) (P : Prop) : Prop :=
  ∃ items : List (List Tok × List (Expr GoAny)), segs = items.map Prod.fst ∧
    (∀ item ∈ items, ReadsConj item.1 item.2) ∧
    (P ↔ ∀ e ∈ items.flatMap Prod.snd, e.Holds I row)

variable {I row} {P Q : Prop} {segs segs' : List (List Tok)} {ts : List Tok}

theorem Means.nil : Means I row [] True := ⟨[], rfl, by simp, by simp⟩

theorem Means.append (left : Means I row segs P) (right : Means I row segs' Q) :
    Means I row (segs ++ segs') (P ∧ Q) := by
  obtain ⟨items, rfl, reads, hP⟩ := left
  obtain ⟨items', rfl, reads', hQ⟩ := right
  refine ⟨items ++ items', by simp, ?_, ?_⟩
  · intro item mem
    exact (mem_append.mp mem).elim (reads item) (reads' item)
  · simp [hP, hQ, or_imp, forall_and]

theorem means_conj {es : List (Expr GoAny)} (reads : ReadsConj ts es)
    (holds : P ↔ ∀ e ∈ es, e.Holds I row) : Means I row [ts] P :=
  ⟨[(ts, es)], rfl, by simpa using reads, by simpa using holds⟩

theorem means_not {E : Expr GoAny} (reads : ReadsNot ts E) (holds : P ↔ E.Holds I row) :
    Means I row [ts] P :=
  means_conj reads.readsConj (by simpa using holds)

theorem Means.readsAnd (means : Means I row segs P) (nonempty : segs ≠ []) :
    ∃ E, ReadsAnd (joinAnd segs) E ∧ (E.Holds I row ↔ P) := by
  obtain ⟨items, rfl, reads, holds⟩ := means
  have chain := readsConj_joinAnd (by simpa using nonempty) reads
  cases list : items.flatMap Prod.snd with
  | nil =>
    obtain ⟨all, some_, -, empty, -⟩ := chain
    rw [list] at empty
    exact absurd (map_eq_nil_iff.mp empty.symm) some_
  | cons =>
    rw [list] at chain holds
    refine ⟨_, chain.readsAnd, ?_⟩
    rw [holds, Expr.holds_foldl_and]
    simp

theorem Means.segsHold (means : Means I row segs P) : SegsHold I row segs ↔ P := by
  by_cases empty : segs = []
  · subst empty
    obtain ⟨items, none, -, holds⟩ := means
    obtain rfl : items = [] := map_eq_nil_iff.mp none.symm
    simp only [SegsHold, true_or, true_iff]
    exact holds.mpr (by simp)
  · obtain ⟨E, reads, holds⟩ := means.readsAnd empty
    simp [SegsHold, empty, reads.readsOr.parse, holds]

theorem segsHold_or {lts rts : List Tok} {L R : Expr GoAny} (before : Means I row segs P)
    (after : Means I row segs' Q) (left : ReadsPrimary lts L) (right : ReadsPrimary rts R) :
    SegsHold I row (segs ++ [lts ++ .or :: rts] ++ segs') ↔
      P ∧ L.Holds I row ∨ R.Holds I row ∧ Q := by
  obtain ⟨E, readsLeft, holdsLeft⟩ :=
    (before.append (means_not left.readsNot Iff.rfl)).readsAnd (by simp)
  obtain ⟨F, readsRight, holdsRight⟩ :=
    ((means_not right.readsNot Iff.rfl).append after).readsAnd (by simp)
  have joined : joinAnd (segs ++ [lts ++ .or :: rts] ++ segs') =
      joinAnd (segs ++ [lts]) ++ .or :: joinAnd ([rts] ++ segs') := by
    cases segs <;> simp [joinAnd]
  have nonempty : segs ++ [lts ++ .or :: rts] ++ segs' ≠ [] := by simp
  simp only [SegsHold, nonempty, false_or, joined, (readsLeft.or readsRight).parse,
    some.injEq, exists_eq_left', Expr.holds_or, holdsLeft, holdsRight]

theorem segsHold_alias (seg : ts ∈ segs) (mem : .alias ∈ ts) : ¬ SegsHold I row segs := by
  have mem : .alias ∈ joinAnd segs := by
    obtain ⟨before, after, rfl⟩ := append_of_mem seg
    cases before <;> simp [joinAnd, mem]
  rintro (rfl | ⟨E, read, -⟩)
  · cases seg
  · rw [parse_eq_none_of_alias mem] at read
    cases read

/-! ### The three conditions -/

theorem Model.deletedSegs_means (m : Model) : Means I row m.deletedSegs (m.Live I row) := by
  cases deleted : m.deletedAtField with
  | none => simpa [Model.deletedSegs, Model.Live, deleted] using Means.nil
  | some =>
    simp only [Model.deletedSegs, Model.Live, deleted, mem_def, some.injEq, forall_eq']
    exact means_not readsPrimary_ident.isNull (by simp [Expr.eval])

theorem Stmt.versionSegs_means (stmt : Stmt) (m : Model) :
    Means I row (stmt.versionSegs m) (stmt.VersionIs I row m sentVersion) := by
  cases stmt with
  | selector | deleter => simpa [versionSegs, Stmt.VersionIs, val] using Means.nil
  | updater u =>
    simp only [versionSegs, Updater.versionSegs, Stmt.VersionIs, val, sentVersion]
    cases m.versionField with
    | none => simpa using Means.nil
    | some version =>
      cases u.val with
      | none => simpa using Means.nil
      | some val =>
        cases sent : readVersionFromVal val version with
        | error => simpa [sent, Except.toOption] using Means.nil
        | ok =>
          simp only [sent, Except.toOption, mem_def, some.injEq, forall_eq']
          refine means_not (readsPrimary_ident.eqSign readsPrimary_ph) ?_
          simp [Expr.Holds, Expr.eval, I.truth_ofTri]

section

variable {p q : Predicate} {ps : List Predicate}

theorem Expression.holds_and {left right : Expression} :
    (predicate left .and right).Holds I row r m ↔ left.Holds I row r m ∧ right.Holds I row r m := by
  simp only [Expression.Holds, resolve]
  cases left.resolve r m <;> cases right.resolve r m <;> simp

theorem Predicate.holds_foldl : (ps.foldl and p).expr.Holds I row r m ↔
    ∀ q ∈ p :: ps, q.expr.Holds I row r m := by
  induction ps generalizing p with
  | nil => simp
  | cons q ps ih =>
    rw [foldl_cons, ih]
    simp [and, expr, holds_and, and_assoc]

theorem Predicate.aliasFree_foldl : (ps.foldl and p).expr.aliasFree ↔
    ∀ q ∈ p :: ps, q.expr.aliasFree := by
  induction ps generalizing p with
  | nil => simp
  | cons q ps ih =>
    rw [foldl_cons, ih]
    simp [and, expr, aliasFree, and_assoc]

theorem Predicate.foldl_op (nonempty : ps ≠ []) : (ps.foldl and p).op = .and := by
  obtain ⟨ps, -, rfl⟩ := eq_nil_or_concat' ps |>.resolve_left nonempty
  simp [and]

theorem UserSegs.plain (segs : UserSegs r m ps users) : ∀ seg ∈ users, ∀ k, .kw k ∉ seg := by
  cases segs with
  | empty => simp
  | joined fold top => simpa using top.rendered.plain

theorem UserSegs.means (segs : UserSegs r m ps users)
    (free : ∀ p ∈ ps, p.expr.aliasFree) (conj : ∀ left right, ps ≠ [⟨left, .or, right⟩]) :
    Means I row users (∀ p ∈ ps, p.expr.Holds I row r m) := by
  cases segs with
  | empty => simpa using Means.nil
  | @joined p q ps ts fold top =>
    have free : q.expr.aliasFree := by
      rw [fold]
      exact aliasFree_foldl.mpr free
    rw [← holds_foldl, ← fold]
    obtain ⟨left, op, right⟩ := q
    cases top with
    | conj _ rendered =>
      obtain ⟨E, resolved, e, es, rfl, reads⟩ := rendered.reads free
      refine means_conj reads ?_
      simp [Expression.Holds, expr, resolved, Expr.holds_foldl_and]
    | or =>
      by_cases single : ps = []
      · subst single
        exact absurd (congrArg (· :: []) fold.symm) (conj left right)
      · have op := foldl_op (p := p) single
        rw [← fold] at op
        cases op

theorem UserSegs.or {left right : Expression} (segs : UserSegs r m [⟨left, .or, right⟩] users)
    (free : (predicate left .or right).aliasFree) :
    ∃ lts rts L R, users = [lts ++ .or :: rts] ∧ ReadsPrimary lts L ∧ ReadsPrimary rts R ∧
      left.resolve r m = some L ∧ right.resolve r m = some R := by
  simp only [aliasFree, Bool.and_eq_true] at free
  cases segs with
  | joined fold top =>
    subst fold
    cases top with
    | conj other => exact absurd rfl other
    | or hl hr =>
      obtain ⟨L, resolvedLeft, readsLeft⟩ := hl.reads free.1
      obtain ⟨R, resolvedRight, readsRight⟩ := hr.reads free.2
      exact ⟨_, _, L, R, rfl, readsLeft, readsRight, resolvedLeft, resolvedRight⟩

theorem UserSegs.aliased (segs : UserSegs r m ps users)
    (aliased : ¬ ∀ p ∈ ps, p.expr.aliasFree) : ∃ seg ∈ users, .alias ∈ seg := by
  cases segs with
  | empty => exact absurd (by simp) aliased
  | joined fold top =>
    refine ⟨_, mem_singleton_self _, top.rendered.aliased ?_⟩
    rw [← aliasFree_foldl, ← fold] at aliased
    exact aliased

end

/-! ### The rows a clause selects -/

theorem Stmt.versionSegs_plain (stmt : Stmt) (m : Model) :
    ∀ seg ∈ stmt.versionSegs m, ∀ k, .kw k ∉ seg := by
  cases stmt with
  | selector | deleter => simp [versionSegs]
  | updater =>
    simp only [versionSegs, Updater.versionSegs]
    split
    · split <;> simp
    · simp

theorem Stmt.clauseHolds_iff (segs : UserSegs stmt.builder.r m stmt.where_ users)
    (clause : HasClause stmt.builder.sql (m.deletedSegs ++ users ++ stmt.versionSegs m) b) :
    stmt.ClauseHolds I row b ↔ SegsHold I row (m.deletedSegs ++ users ++ stmt.versionSegs m) := by
  have plain : ∀ seg ∈ m.deletedSegs ++ users ++ stmt.versionSegs m, ∀ k, .kw k ∉ seg := by
    simp only [mem_append, or_imp, forall_and]
    refine ⟨⟨?_, segs.plain⟩, stmt.versionSegs_plain m⟩
    cases deleted : m.deletedAtField <;> simp [Model.deletedSegs, deleted]
  rw [Stmt.ClauseHolds, clause.whereClause plain, SegsHold]
  split <;> simp_all

theorem Instance.sentVersion_eq {val : Instance} {field : Field}
    (fits : ∀ n, val.field field.goName = some (.uint n) → n < 2 ^ 63) :
    val.sentVersion field = val.version field := by
  unfold sentVersion version readVersionFromVal
  cases value : val.field field.goName with
  | none => rfl
  | some v =>
    cases v with
    | uint n =>
      have small : toInt64 n = n := by
        have := fits n value
        exact Int.bmod_eq_of_le_mul_two (by omega) (by omega)
      simp [small, Except.toOption]
    | _ => rfl

theorem Stmt.sent_iff_version (fits : ∀ version ∈ m.versionField, ∀ val ∈ stmt.val, ∀ n,
      val.field version.goName = some (.uint n) → n < 2 ^ 63) :
    stmt.VersionIs I row m sentVersion ↔ stmt.VersionIs I row m version := by
  refine forall₄_congr fun version hversion val hval => ?_
  rw [sentVersion_eq (fits version hversion val hval)]

theorem guarded_or_iff {D L R S V : Prop} : ((D ∧ L ∨ R ∧ S) ↔ (D ∧ (L ∨ R) ∧ V)) ↔
      (D ∧ L → V) ∧ (R ∧ S → D ∧ V) ∧ (D ∧ V ∧ R → L ∨ S) := by
  grind

theorem guarded_and_iff {D U S V : Prop} : (((D ∧ U) ∧ S) ↔ (D ∧ U ∧ V)) ↔ (D ∧ U → (S ↔ V)) := by
  grind

/-- The clause of a built statement is true of exactly the rows the statement is meant
for, precisely when it reads as a conjunction of its parts. -/
theorem Stmt.where_iff {stmt : Stmt} (known : stmt.builder.r stmt.entity = .ok m)
    (built : ∀ p ∈ stmt.where_, Built p) (run : stmt.build = .ok b) :
    (stmt.ClauseHolds I row b ↔ stmt.Selects I row m) ↔ stmt.ReadsAsConjunction I row m := by
  obtain ⟨users, segs, clause⟩ := build_wrote known built run
  rw [clauseHolds_iff segs clause]
  have before : Means I row m.deletedSegs (m.Live I row) := m.deletedSegs_means
  have after : Means I row (stmt.versionSegs m) (stmt.VersionIs I row m sentVersion) :=
    stmt.versionSegs_means m
  by_cases free : ∀ p ∈ stmt.where_, p.expr.aliasFree
  · simp only [Stmt.ReadsAsConjunction, if_pos free, Stmt.Selects]
    split
    · rename_i left right single
      rw [single] at segs free ⊢
      obtain ⟨lts, rts, L, R, rfl, readsLeft, readsRight, resolvedLeft, resolvedRight⟩ :=
        segs.or (free _ (mem_singleton_self _))
      rw [segsHold_or before after readsLeft readsRight]
      have either : (∀ p ∈ [(⟨left, .or, right⟩ : Predicate)],
          p.expr.Holds I row stmt.builder.r m) ↔ L.Holds I row ∨ R.Holds I row := by
        simp [Expression.Holds, expr, resolve, resolvedLeft, resolvedRight]
      rw [either]
      simp only [Expression.Holds, resolvedLeft, resolvedRight, some.injEq, exists_eq_left']
      exact guarded_or_iff
    · rename_i conj
      rw [((before.append (segs.means free conj)).append after).segsHold]
      exact guarded_and_iff
  · obtain ⟨seg, mem, aliased⟩ := segs.aliased free
    have unread : ¬ SegsHold I row (m.deletedSegs ++ users ++ stmt.versionSegs m) :=
      segsHold_alias (mem_append_left _ (mem_append_right _ mem)) aliased
    simp only [Stmt.ReadsAsConjunction, if_neg free, unread, false_iff]

end

/-! ## Stored rows

A database whose cells are the bound values themselves, and the soft-delete model of the
test suite with a version column. -/

def cells : Interp GoAny (String → GoAny) GoAny where
  bind v := v
  col _ name row := row name
  agg _ _ _ := .nil
  raw _ _ _ := .nil
  cmp
    | _, .nil, _ => .unknown
    | _, _, .nil => .unknown
    | .eq, x, y => Tri.ofBool (x = y)
    | .gt, .int i, .int j => Tri.ofBool (j < i)
    | .lt, .int i, .int j => Tri.ofBool (i < j)
    | _, _, _ => .unknown
  null v := v = .nil
  truth
    | .nil => .unknown
    | .int 0 => .false
    | _ => .true
  ofTri
    | .true => .int 1
    | .false => .int 0
    | .unknown => .nil
  truth_ofTri t := by cases t <;> rfl

def softDeleteModel : Model where
  tableName := "soft_delete_model"
  fieldMap
    | "Id" => some ⟨"id", "Id"⟩
    | "FirstName" => some ⟨"first_name", "FirstName"⟩
    | "DeletedAt" => some ⟨"deleted_at", "DeletedAt"⟩
    | "Version" => some ⟨"version", "Version"⟩
    | _ => none
  fields := [⟨"id", "Id"⟩, ⟨"first_name", "FirstName"⟩, ⟨"deleted_at", "DeletedAt"⟩,
    ⟨"version", "Version"⟩]
  deletedAtField := some ⟨"deleted_at", "DeletedAt"⟩
  versionField := some ⟨"version", "Version"⟩

def idIs (id : Int) : Predicate := (col "Id").eq (.plain (.int id))

def firstNameIs (name : String) : Predicate := (col "FirstName").eq (.plain (.str name))

theorem built_idIs (id : Int) : Built (idIs id) := .columnEq (col "Id") (.value (.int id))

theorem built_firstNameIs (name : String) : Built (firstNameIs name) :=
  .columnEq (col "FirstName") (.value (.str name))

def softDeleteBuilder : Builder := { r := fun _ => .ok softDeleteModel, quoter := Char.ofNat 96 }

def selectWhere (where_ : List Predicate) : Stmt :=
  .selector
    { builder := softDeleteBuilder, entity := "SoftDeleteModel", where_ }

def updateWhere (val : Instance) (where_ : List Predicate) : Stmt :=
  .updater
    { builder := softDeleteBuilder, entity := "SoftDeleteModel", val := some val, where_ }

def tom : Instance where
  field
    | "Id" => some (.int 1)
    | "FirstName" => some (.str "Tom")
    | "DeletedAt" => some .nil
    | "Version" => some (.int 3)
    | _ => none

def Stmt.text (stmt : Stmt) : Option String := stmt.build.toOption.map Builder.text

example : (selectWhere [idIs 1, firstNameIs "Tom"]).text = some
    ("SELECT * FROM `soft_delete_model` WHERE `deleted_at` IS NULL AND " ++
      "(`id` = ?) AND (`first_name` = ?);") := by
  decide

example : (selectWhere [(idIs 1).or (firstNameIs "Tom")]).text = some
    ("SELECT * FROM `soft_delete_model` WHERE `deleted_at` IS NULL AND " ++
      "(`id` = ?) OR (`first_name` = ?);") := by
  decide

example : (updateWhere tom [idIs 1]).text = some
    ("UPDATE `soft_delete_model` SET `id`=?,`first_name`=?,`deleted_at`=?," ++
      "`version`=`version`+1 WHERE `deleted_at` IS NULL AND `id` = ? AND `version`=?;") := by
  decide +kernel

def deletedTom : String → GoAny
  | "id" => .int 2
  | "first_name" => .str "Tom"
  | "deleted_at" => .time 5
  | "version" => .int 0
  | _ => .nil

/-- A guarded update by id is right about the soft-deleted row. -/
theorem Stmt.where_iff_update_by_id : ∃ b, (updateWhere tom [idIs 1]).build = .ok b ∧
    ((updateWhere tom [idIs 1]).ClauseHolds cells deletedTom b ↔
      (updateWhere tom [idIs 1]).Selects cells deletedTom softDeleteModel) := by
  refine ⟨_, rfl, (where_iff rfl (fun p mem => ?_) rfl).mpr fun _ => sent_iff_version ?_⟩
  · rw [mem_singleton.mp mem]
    exact built_idIs 1
  · rintro version ⟨⟩ val ⟨⟩ n ⟨⟩

/-- A soft-deleted row is selected through the right side of a disjunction. -/
theorem Stmt.selects_deleted_row :
    (∀ p ∈ (selectWhere [(idIs 1).or (firstNameIs "Tom")]).where_, Built p) ∧
    ∃ b, (selectWhere [(idIs 1).or (firstNameIs "Tom")]).build = .ok b ∧
      (selectWhere [(idIs 1).or (firstNameIs "Tom")]).ClauseHolds cells deletedTom b ∧
      ¬ (selectWhere [(idIs 1).or (firstNameIs "Tom")]).Selects cells deletedTom
        softDeleteModel := by
  refine ⟨fun p mem => ?_, _, rfl, ⟨_, rfl, rfl⟩, fun selects => ?_⟩
  · rw [mem_singleton.mp mem]
    exact .or (built_idIs 1) (built_firstNameIs "Tom")
  · exact absurd (selects.1 _ rfl) (by decide)

end Soil.Orm
